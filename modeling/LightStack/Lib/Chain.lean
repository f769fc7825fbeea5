import Mathlib.Data.List.Basic
import Mathlib.Data.List.Nodup
import Mathlib.Logic.Function.Basic

/-!
# Cells linked through a pointer

`Path next p l q` says that following the pointers from `p` visits the cells `l` and comes to `q`.
-/

namespace LightStack.Lib.Chain

open List

variable {α : Type*}

def Path (next : α → Option α) : Option α → List α → Option α → Prop
  | p, [], q => p = q
  | p, m :: l, q => p = some m ∧ Path next (next m) l q

section

variable {next next' : α → Option α} {p q r : Option α} {m : α} {l l' : List α}

@[simp]
theorem path_nil : Path next p [] q ↔ p = q := Iff.rfl

@[simp]
theorem path_cons : Path next p (m :: l) q ↔ p = some m ∧ Path next (next m) l q := Iff.rfl

theorem path_append : Path next p (l ++ l') q ↔ ∃ r, Path next p l r ∧ Path next r l' q := by
  induction l generalizing p with
  | nil => simp
  | cons m l ih => simp only [cons_append, path_cons, ih, and_assoc, exists_and_left]

theorem Path.append (h : Path next p l r) (h' : Path next r l' q) : Path next p (l ++ l') q :=
  path_append.mpr ⟨r, h, h'⟩

theorem Path.congr (h : Path next p l q) (hsame : ∀ m ∈ l, next' m = next m) :
    Path next' p l q := by
  induction l generalizing p with
  | nil => exact h
  | cons m l ih =>
    obtain ⟨hp, hrest⟩ := h
    refine ⟨hp, ?_⟩
    rw [hsame m (mem_cons_self ..)]
    exact ih hrest fun m' hm' => hsame m' (mem_cons_of_mem _ hm')

theorem Path.unique (h : Path next p l none) (h' : Path next p l' none) : l = l' := by
  induction l generalizing p l' with
  | nil =>
    cases l' with
    | nil => rfl
    | cons m' l' => simp [path_nil.mp h] at h'
  | cons m l ih =>
    obtain ⟨rfl, hrest⟩ := h
    cases l' with
    | nil => simp at h'
    | cons m' l' =>
      obtain ⟨hm, hrest'⟩ := h'
      cases hm
      rw [ih hrest hrest']

theorem Path.nodup (h : Path next p l none) : l.Nodup := by
  induction l generalizing p with
  | nil => exact nodup_nil
  | cons m l ih =>
    obtain ⟨rfl, hrest⟩ := h
    refine nodup_cons.mpr ⟨fun hm => ?_, ih hrest⟩
    obtain ⟨passed, rest, rfl⟩ := append_of_mem hm
    obtain ⟨_, -, rfl, hagain⟩ := path_append.mp hrest
    -- the path from `m` would have two lengths
    have hlength := congrArg List.length (hrest.unique hagain)
    rw [length_append, length_cons] at hlength
    omega

theorem Path.eq_nil (h : Path next none l none) : l = [] := h.unique (path_nil.mpr rfl)

section Update

variable [DecidableEq α]

theorem Path.update (h : Path next p l q) (hm : m ∉ l) : Path (Function.update next m r) p l q := by
  refine h.congr fun m' hm' => Function.update_of_ne ?_ ..
  rintro rfl
  exact hm hm'

theorem Path.update_last (h : Path next p (l ++ [m]) q) (hm : m ∉ l) :
    Path (Function.update next m r) p (l ++ [m]) r := by
  obtain ⟨_, hfront, hlast, -⟩ := path_append.mp h
  exact (hfront.update hm).append ⟨hlast, by simp⟩

end Update

def last (next : α → Option α) : Nat → α → α
  | 0, m => m
  | fuel + 1, m =>
    match next m with
    | none => m
    | some m' => last next fuel m'

theorem last_eq {z : α} {fuel : Nat} (h : Path next (some m) (l ++ [z]) none)
    (hfuel : l.length ≤ fuel) : last next fuel m = z := by
  induction l generalizing m fuel with
  | nil =>
    obtain ⟨hm, hend⟩ := h
    cases hm
    cases fuel with
    | zero => rfl
    | succ fuel =>
      rw [path_nil] at hend
      simp [last, hend]
  | cons m' l ih =>
    obtain ⟨hm, hrest⟩ := h
    obtain rfl := Option.some.inj hm
    cases fuel with
    | zero => simp at hfuel
    | succ fuel =>
      have hnext : ∃ m'', next m = some m'' := by
        cases l with
        | nil | cons => exact ⟨_, hrest.1⟩
      obtain ⟨m'', hnext⟩ := hnext
      rw [hnext] at hrest
      simp only [last, hnext]
      exact ih hrest (by simpa using hfuel)

def cells (next : α → Option α) : Nat → Option α → List α
  | 0, _ => []
  | _ + 1, none => []
  | fuel + 1, some m => m :: cells next fuel (next m)

theorem cells_eq {fuel : Nat} (h : Path next p l none) (hfuel : l.length ≤ fuel) :
    cells next fuel p = l := by
  induction l generalizing p fuel with
  | nil =>
    rw [path_nil] at h
    cases fuel <;> simp [cells, h]
  | cons m l ih =>
    obtain ⟨rfl, hrest⟩ := h
    cases fuel with
    | zero => simp at hfuel
    | succ fuel => rw [cells, ih hrest (by simpa using hfuel)]

end

end LightStack.Lib.Chain
