import Mathlib.Data.List.Basic
import Mathlib.Data.List.Perm.Basic

/-!
# Messages to several receivers

One list holds the messages to all receivers, and each takes the oldest that is addressed to it.
-/

namespace LightStack.Lib.Mailbox

open List

variable {ι μ : Type*} [DecidableEq ι]

def take (k : ι) : List (ι × μ) → Option (μ × List (ι × μ))
  | [] => none
  | (j, m) :: rest =>
    if j = k then some (m, rest)
    else (take k rest).map fun taken => (taken.1, (j, m) :: taken.2)

variable {k : ι} {m : μ} {box rest : List (ι × μ)}

section

variable (h : take k box = some (m, rest))

include h

theorem take_split :
    ∃ before after, box = before ++ (k, m) :: after ∧ rest = before ++ after ∧
      ∀ x ∈ before, x.1 ≠ k := by
  induction box generalizing rest with
  | nil => cases h
  | cons x box ih =>
    obtain ⟨j, m'⟩ := x
    unfold take at h
    split at h
    · rename_i hj
      obtain ⟨rfl, rfl⟩ := Prod.mk.inj (Option.some.inj h)
      exact ⟨[], box, by simp [hj], rfl, by simp⟩
    · rename_i hj
      obtain ⟨⟨m'', rest'⟩, htake, heq⟩ := Option.map_eq_some_iff.mp h
      obtain ⟨rfl, rfl⟩ := Prod.mk.inj heq
      obtain ⟨before, after, rfl, rfl, hother⟩ := ih htake
      refine ⟨(j, m') :: before, after, rfl, rfl, ?_⟩
      intro x hx
      rcases mem_cons.mp hx with rfl | hx
      · exact hj
      · exact hother x hx

theorem take_perm : box.Perm ((k, m) :: rest) := by
  obtain ⟨before, after, rfl, rfl, -⟩ := take_split h
  exact perm_middle

theorem mem_of_take : (k, m) ∈ box :=
  (take_perm h).mem_iff.mpr (mem_cons_self ..)

theorem subset_of_take : rest ⊆ box := by
  intro x hx
  exact (take_perm h).mem_iff.mpr (mem_cons_of_mem _ hx)

theorem sublist_of_take : rest.Sublist box := by
  obtain ⟨before, after, rfl, rfl, -⟩ := take_split h
  exact (sublist_cons_self ..).append_left before

theorem rel_of_take {r : ι × μ → ι × μ → Prop} (hpairwise : box.Pairwise r) {m' : μ}
    (hmem : (k, m') ∈ rest) : r (k, m) (k, m') := by
  obtain ⟨before, after, rfl, rfl, hother⟩ := take_split h
  rcases mem_append.mp hmem with hmem | hmem
  · exact absurd rfl (hother _ hmem)
  · exact rel_of_pairwise_cons (pairwise_append.mp hpairwise).2.1 hmem

theorem filter_of_take_neg {p : ι × μ → Bool} (hp : p (k, m) = false) :
    rest.filter p = box.filter p := by
  obtain ⟨before, after, rfl, rfl, -⟩ := take_split h
  simp [hp]

theorem filter_of_take_pos {p : ι × μ → Bool} (hp : p (k, m) = true)
    (hall : ∀ x ∈ box, p x = true → x.1 = k) : box.filter p = (k, m) :: rest.filter p := by
  obtain ⟨before, after, rfl, rfl, hother⟩ := take_split h
  have hbefore : before.filter p = [] := by
    rw [filter_eq_nil_iff]
    intro x hx hpx
    exact hother x hx (hall x (mem_append_left _ hx) hpx)
  simp [hp, hbefore]

end

def select {ν : Type*} (f : μ → Option ν) (box : List (ι × μ)) : List (ι × ν) :=
  box.filterMap fun x => (f x.2).map fun y => (x.1, y)

section Select

variable {ν : Type*} {f : μ → Option ν}

omit [DecidableEq ι] in
theorem select_append (box box' : List (ι × μ)) :
    select f (box ++ box') = select f box ++ select f box' :=
  filterMap_append ..

omit [DecidableEq ι] in
theorem mem_select {y : ν} : (k, y) ∈ select f box ↔ ∃ m, (k, m) ∈ box ∧ f m = some y := by
  simp only [select, mem_filterMap, Option.map_eq_some_iff, Prod.mk.injEq]
  constructor
  · rintro ⟨⟨j, m⟩, hmem, y', hy', rfl, rfl⟩
    exact ⟨m, hmem, hy'⟩
  · rintro ⟨m, hmem, hy⟩
    exact ⟨(k, m), hmem, y, hy, rfl, rfl⟩

theorem take_select {y : ν} (h : take k box = some (m, rest)) (hf : f m = some y) :
    take k (select f box) = some (y, select f rest) := by
  induction box generalizing rest with
  | nil => cases h
  | cons x box ih =>
    obtain ⟨j, m'⟩ := x
    unfold take at h
    split at h
    · rename_i hj
      obtain ⟨rfl, rfl⟩ := Prod.mk.inj (Option.some.inj h)
      simp [select, hf, take, hj]
    · rename_i hj
      obtain ⟨⟨m'', rest'⟩, htake, heq⟩ := Option.map_eq_some_iff.mp h
      obtain ⟨rfl, rfl⟩ := Prod.mk.inj heq
      have ih := ih htake
      cases hm' : f m' with
      | none => simpa [select, hm'] using ih
      | some y' =>
        simp only [select, filterMap_cons, hm', Option.map_some] at ih ⊢
        simp [take, hj, ih]

theorem select_of_take_none (h : take k box = some (m, rest)) (hf : f m = none) :
    select f rest = select f box := by
  obtain ⟨before, after, rfl, rfl, -⟩ := take_split h
  simp [select, hf]

end Select

end LightStack.Lib.Mailbox
