import LightStack.Lib.Transition
import Mathlib.Tactic.NormNum

/-!
# The names of the fifos

The name of a fifo ends with three numbers and nothing between them.
-/

namespace LightStack.Epoll.Fifo

open Lib Function List

def decimal (n : Nat) : List Nat :=
  if n < 10 then [n] else decimal (n / 10) ++ [n % 10]

def directory : List Char := "/tmp/epoll_fifo_".toList

/-- The format of both processes. -/
def fifoName (epollIdx pid i : Nat) : List Char :=
  directory ++ (decimal epollIdx ++ decimal pid ++ decimal i).map Nat.digitChar

structure EpollCreate where
  epollIdx : Nat
  pid : Nat

structure Announced where
  name : List Char
  receiver : Nat
  cmd : EpollCreate

/-- The loop of `light_epoll_create`: a fifo for each stack process, and a command that names it by
its numbers. -/
def lightEpollCreate (numProcs epollIdx pid : Nat) : List Announced :=
  (List.range numProcs).map fun i => ⟨fifoName epollIdx pid i, i, ⟨epollIdx, pid⟩⟩

/-- What a stack process opens for the command. -/
def openedName (cmd : EpollCreate) (procId : Nat) : List Char :=
  fifoName cmd.epollIdx cmd.pid procId

def value (digits : List Nat) : Nat := digits.foldl (fun n d => 10 * n + d) 0

theorem value_decimal (n : Nat) : value (decimal n) = n := by
  fun_induction decimal n with
  | case1 n hn => simp [value]
  | case2 n hn ih =>
    rw [value, foldl_append]
    change 10 * value (decimal (n / 10)) + n % 10 = n
    omega

theorem decimal_injective : Injective decimal := fun m n h => by
  rw [← value_decimal m, h, value_decimal]

theorem decimal_lt {n d : Nat} (hd : d ∈ decimal n) : d < 10 := by
  fun_induction decimal n with
  | case1 n hn => exact mem_singleton.mp hd ▸ hn
  | case2 n hn ih =>
    rcases mem_append.mp hd with hd | hd
    · exact ih hd
    · rw [mem_singleton.mp hd]
      exact Nat.mod_lt _ (by decide)

theorem directory_length : directory.length = 16 := by decide

theorem decimal_length_le {n k : Nat} (hn : n < 10 ^ (k + 1)) : (decimal n).length ≤ k + 1 := by
  induction k generalizing n with
  | zero => rw [decimal, if_pos (by simpa using hn)]; exact Nat.le_refl 1
  | succ k ih =>
    rw [decimal]
    split
    · exact Nat.le_add_left ..
    · rw [length_append]
      exact Nat.succ_le_succ (ih (Nat.div_lt_of_lt_mul (by rwa [← Nat.pow_succ'])))

theorem map_digitChar_injective {l m : List Nat} (hl : ∀ d ∈ l, d < 10) (hm : ∀ d ∈ m, d < 10)
    (h : l.map Nat.digitChar = m.map Nat.digitChar) : l = m := by
  have hdigit : ∀ d < 10, (Nat.digitChar d).toNat - 48 = d := by decide
  have hback {l : List Nat} (hl : ∀ d ∈ l, d < 10) :
      (l.map Nat.digitChar).map (fun c => c.toNat - 48) = l := by
    rw [map_map]
    exact (map_congr_left fun d hd => hdigit d (hl d hd)).trans (map_id l)
  rw [← hback hl, h, hback hm]

abbrev State := Nat → Option Nat

inductive Action where
  | create (epollIdx pid : Nat)
  | close (epollIdx : Nat)
  deriving DecidableEq

def step (s : State) : Action → Option State
  | .create epollIdx pid =>
    if s epollIdx = none then some (update s epollIdx (some pid)) else none
  | .close epollIdx => if s epollIdx = none then none else some (update s epollIdx none)

def system : TransitionSystem State Action where
  init s := ∀ epollIdx, s epollIdx = none
  step := step

/-- The numbers of all processes that create an epoll have `w` digits. -/
def SameWidth (w : Nat) (_ : State) : Action → Prop
  | .create _ pid => (decimal pid).length = w
  | .close _ => True

theorem width_of_reachable {w : Nat} {s : State} (hreach : system.ReachableUnder (SameWidth w) s) :
    ∀ i pid, s i = some pid → (decimal pid).length = w := by
  apply hreach.invariant
  · intro s hinit i pid hi
    exact nomatch (hinit i).symm.trans hi
  · intro s a t hs hguard hstep i pid hi
    cases a with
    | create epollIdx creator =>
      obtain ⟨-, rfl⟩ := of_guard hstep
      by_cases hidx : i = epollIdx
      · rw [hidx, update_self] at hi
        exact Option.some.inj hi ▸ hguard
      · rw [update_of_ne hidx] at hi
        exact hs i pid hi
    | close epollIdx =>
      obtain ⟨-, hstep⟩ := Option.ite_none_left_eq_some.mp hstep
      cases hstep
      by_cases hidx : i = epollIdx
      · rw [hidx, update_self] at hi
        cases hi
      · rw [update_of_ne hidx] at hi
        exact hs i pid hi

theorem fifoName_injective {i j p q c d : Nat} (hwidth : (decimal p).length = (decimal q).length)
    (hc : c < 10) (hd : d < 10) (hname : fifoName i p c = fifoName j q d) : i = j ∧ c = d := by
  have hdigits := append_cancel_left hname
  have hlt (i p c : Nat) : ∀ d ∈ decimal i ++ decimal p ++ decimal c, d < 10 := by
    intro d hmem
    simp only [mem_append] at hmem
    rcases hmem with (hmem | hmem) | hmem <;> exact decimal_lt hmem
  have heq := map_digitChar_injective (hlt i p c) (hlt j q d) hdigits
  have hlast : (decimal c).length = (decimal d).length := by
    rw [decimal, if_pos hc, decimal, if_pos hd]
    rfl
  obtain ⟨hfront, hproc⟩ := append_inj' heq hlast
  obtain ⟨hidx, -⟩ := append_inj' hfront hwidth
  exact ⟨decimal_injective hidx, decimal_injective hproc⟩

/-- With at most ten stack processes and process numbers of one width, epolls have different fifos.
-/
theorem fifo_names_distinct (numProcs w : Nat) (hprocs : numProcs ≤ 10) (s : State)
    (hreach : system.ReachableUnder (SameWidth w) s) :
    (∀ i j p q c d, s i = some p → s j = some q → c < numProcs → d < numProcs →
      fifoName i p c = fifoName j q d → i = j ∧ c = d) ∧
    (∀ n i p, ∀ a ∈ lightEpollCreate n i p, openedName a.cmd a.receiver = a.name) ∧
    ∀ i p c, i < 2 ^ 31 → p < 2 ^ 31 → c < 2 ^ 31 → (fifoName i p c).length + 1 ≤ 1024 := by
  refine ⟨fun i j p q c d hi hj hc hd hname => ?_, fun n i p a ha => ?_,
    fun i p c hi hp hc => ?_⟩
  · have hwidth := (width_of_reachable hreach i p hi).trans (width_of_reachable hreach j q hj).symm
    exact fifoName_injective hwidth (by omega) (by omega) hname
  · obtain ⟨c, -, rfl⟩ := mem_map.mp ha
    rfl
  · have hlen {n : Nat} (hn : n < 2 ^ 31) : (decimal n).length ≤ 9 + 1 :=
      decimal_length_le (Nat.lt_trans hn (by norm_num))
    have hdigits := Nat.add_le_add (Nat.add_le_add (hlen hi) (hlen hp)) (hlen hc)
    rw [fifoName, length_append, length_map, length_append, length_append,
      directory_length]
    clear hlen hi hp hc
    omega

theorem fifo_names_distinct_three_digits : fifoName 1 234 0 ≠ fifoName 12 345 0 := by
  intro hname
  have hreach : system.ReachableUnder (SameWidth 3)
      (update (update (fun _ => none) 1 (some 234)) 12 (some 345)) :=
    .next (a := .create 12 345) (.next (a := .create 1 234) (.start fun _ => rfl)
      (by simp [SameWidth, decimal]) rfl) (by simp [SameWidth, decimal]) rfl
  have heq := (fifo_names_distinct 1 3 (by decide) _ hreach).1 1 12 234 345 0 0 rfl rfl
    (by decide) (by decide) hname
  exact absurd heq.1 (by decide)

theorem fifo_shared : ∃ s, system.Reachable s ∧ s 1 = some 234 ∧ s 12 = some 34 ∧
      fifoName 1 234 0 = fifoName 12 34 0 := by
  have hdigits : decimal 1 ++ decimal 234 ++ decimal 0 = decimal 12 ++ decimal 34 ++ decimal 0 := by
    simp [decimal]
  refine ⟨update (update (fun _ => none) 1 (some 234)) 12 (some 34), ?_, rfl, rfl, ?_⟩
  · exact .next (a := .create 12 34) (.next (a := .create 1 234) (.start fun _ => rfl) trivial rfl)
      trivial rfl
  · rw [fifoName, fifoName, hdigits]

end LightStack.Epoll.Fifo
