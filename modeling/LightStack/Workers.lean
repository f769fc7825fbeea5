import LightStack.Lib.Transition
import Mathlib.Algebra.BigOperators.Group.Finset.Piecewise
import Mathlib.Algebra.Order.BigOperators.Group.Finset
import Mathlib.Data.List.Perm.Basic

/-!
# Registration of workers

`update_worker_info` looks for the stack process with the fewest workers and raises its counter in
two critical sections.
-/

namespace LightStack.Workers

open Lib Function List

def maxWorker : Nat := 1024

def maxCoresNum : Nat := 32

def numProcs (cores : Nat) : Nat := if cores < maxCoresNum then cores else 0

def leastServed (workersServed : Nat → Nat) (numProcs : Nat) : Nat × Nat :=
  (List.range numProcs).foldl (fun best cur =>
      if workersServed cur < best.1 then (workersServed cur, cur) else best)
    (maxWorker + 1, 0)

def getStackProcId (workersServed : Nat → Nat) (numProcs : Nat) : Nat :=
  (leastServed workersServed numProcs).2

inductive Origin where
  | init
  | fork
  | thread
deriving DecidableEq

inductive Phase where
  | drawn
  | chosen (stackProcId : Nat)
  | counted (stackProcId : Nat)
  | pidEntered (stackProcId : Nat)
deriving DecidableEq

structure Registration where
  process : Nat
  origin : Origin
  workerId : Nat
  phase : Phase
deriving DecidableEq

structure Worker where
  process : Nat
  workerId : Nat
  stackProcId : Nat
deriving DecidableEq

structure State where
  cores : Nat
  registerWorker : Nat
  workersServed : Nat → Nat
  workerAppids : Nat → Option Nat
  workerProcids : Nat → Option Nat
  workerId : Nat → Nat
  pending : List Registration
  completed : List Worker
  overrun : Bool

def draw (s : State) (process : Nat) (origin : Origin) : Option State :=
  if origin = .init ∧ s.pending.any (fun r => decide (r.origin = .init)) = true then none
  else
    some { s with
      registerWorker := s.registerWorker + 1
      workerId := update s.workerId process s.registerWorker
      pending := ⟨process, origin, s.registerWorker, .drawn⟩ :: s.pending }

def choose (s : State) (i : Nat) : Option State :=
  match s.pending[i]? with
  | some ⟨process, origin, id, .drawn⟩ =>
    some { s with
      pending := s.pending.set i ⟨process, origin, id,
          .chosen (getStackProcId s.workersServed (numProcs s.cores))⟩ }
  | _ => none

def count (s : State) (i : Nat) : Option State :=
  match s.pending[i]? with
  | some ⟨process, origin, id, .chosen p⟩ =>
    some { s with
      workersServed := update s.workersServed p (s.workersServed p + 1)
      pending := s.pending.set i ⟨process, origin, id, .counted p⟩ }
  | _ => none

def enterPid (s : State) (i : Nat) : Option State :=
  match s.pending[i]? with
  | some ⟨process, origin, id, .counted p⟩ =>
    some { s with
      workerAppids := update s.workerAppids (s.workerId process) (some process)
      pending := s.pending.set i ⟨process, origin, id, .pidEntered p⟩
      overrun := s.overrun || decide (maxWorker ≤ s.workerId process) }
  | _ => none

def enterProc (s : State) (i : Nat) : Option State :=
  match s.pending[i]? with
  | some ⟨process, _, id, .pidEntered p⟩ =>
    some { s with
      workerProcids := update s.workerProcids (s.workerId process) (some p)
      pending := s.pending.eraseIdx i
      completed := ⟨process, id, p⟩ :: s.completed
      overrun := s.overrun || decide (maxWorker ≤ s.workerId process) }
  | _ => none

inductive Action where
  | draw (process : Nat) (origin : Origin)
  | choose (i : Nat)
  | count (i : Nat)
  | enterPid (i : Nat)
  | enterProc (i : Nat)
deriving DecidableEq

def step (s : State) : Action → Option State
  | .draw process origin => draw s process origin
  | .choose i => choose s i
  | .count i => count s i
  | .enterPid i => enterPid s i
  | .enterProc i => enterProc s i

structure Start (s : State) : Prop where
  cores_pos : 0 < s.cores
  registerWorker_eq : s.registerWorker = 0
  workersServed_eq : ∀ p, p < s.cores → s.workersServed p = 0
  pending_eq : s.pending = []
  completed_eq : s.completed = []
  overrun_eq : s.overrun = false

def system : TransitionSystem State Action where
  init := Start
  step := step

def Registration.isChosen (r : Registration) : Bool :=
  match r.phase with
  | .chosen _ => true
  | _ => false

def Registration.isCounted (r : Registration) : Bool :=
  match r.phase with
  | .counted _ | .pidEntered _ => true
  | _ => false

/-- One registration of a process at a time, no search between a search and its increment, fewer
stack processes than `MAX_CORES_NUM` and at most `MAX_WORKER` workers. -/
def Separate (s : State) : Action → Prop
  | .draw process _ => s.registerWorker < maxWorker ∧
      s.pending.all (fun r => decide (r.process ≠ process)) = true
  | .choose _ => s.cores < maxCoresNum ∧ s.pending.any Registration.isChosen = false
  | _ => True

instance decidableSeparate (s : State) (a : Action) : Decidable (Separate s a) := by
  cases a <;> dsimp only [Separate] <;> infer_instance

/-! ## The search -/

theorem leastServed_spec (f : Nat → Nat) (n : Nat) : (∀ i < n, (leastServed f n).1 ≤ f i) ∧
      (leastServed f n = (maxWorker + 1, 0) ∨
        (leastServed f n).2 < n ∧ (leastServed f n).1 = f (leastServed f n).2) := by
  induction n with
  | zero => exact ⟨by simp, Or.inl rfl⟩
  | succ n ih =>
    obtain ⟨hleast, hfound⟩ := ih
    have hsucc : leastServed f (n + 1) =
        if f n < (leastServed f n).1 then (f n, n) else leastServed f n := by
      rw [leastServed, range_succ, foldl_append]
      rfl
    by_cases hlt : f n < (leastServed f n).1
    · rw [hsucc, if_pos hlt]
      refine ⟨?_, Or.inr ⟨Nat.lt_succ_self n, rfl⟩⟩
      intro i hi
      rcases Nat.lt_succ_iff_lt_or_eq.mp hi with hi | rfl
      · exact Nat.le_trans (Nat.le_of_lt hlt) (hleast i hi)
      · exact Nat.le_refl _
    · rw [hsucc, if_neg hlt]
      constructor
      · intro i hi
        rcases Nat.lt_succ_iff_lt_or_eq.mp hi with hi | rfl
        · exact hleast i hi
        · exact Nat.le_of_not_lt hlt
      · apply hfound.imp_right
        rintro ⟨hbelow, heq⟩
        exact ⟨Nat.lt_succ_of_lt hbelow, heq⟩

theorem getStackProcId_lt (f : Nat → Nat) {cores : Nat} (hcores : 0 < cores) :
    getStackProcId f (numProcs cores) < cores := by
  have hle : numProcs cores ≤ cores := by
    unfold numProcs
    split <;> omega
  obtain ⟨-, hnone | hfound⟩ := leastServed_spec f (numProcs cores)
  · rw [getStackProcId, hnone]
    exact hcores
  · exact Nat.lt_of_lt_of_le hfound.1 hle

variable {i : Nat}

theorem getStackProcId_le (f : Nat → Nat) {n : Nat} (hbound : ∀ i < n, f i ≤ maxWorker)
    (hi : i < n) : f (getStackProcId f n) ≤ f i := by
  obtain ⟨hleast, hnone | ⟨-, heq⟩⟩ := leastServed_spec f n
  · have := hleast i hi
    rw [hnone] at this
    exact absurd (hbound i hi) (by omega)
  · rw [getStackProcId, ← heq]
    exact hleast i hi

/-! ## Ids and counters

These need nothing of the order in which the registrations move. -/

section Perm

variable {β : Type*} {l : List β} {i : Nat} {r : β}

theorem perm_of_getElem? (h : l[i]? = some r) : l.Perm (r :: l.eraseIdx i) := by
  obtain ⟨hi, rfl⟩ := List.getElem?_eq_some_iff.mp h
  exact (getElem_cons_eraseIdx_perm hi).symm

theorem set_perm_of_getElem? (h : l[i]? = some r) (x : β) :
    (l.set i x).Perm (x :: l.eraseIdx i) := by
  obtain ⟨hi, -⟩ := List.getElem?_eq_some_iff.mp h
  exact set_perm_cons_eraseIdx hi x

end Perm

def ids (s : State) : List Nat :=
  s.pending.map Registration.workerId ++ s.completed.map Worker.workerId

structure Accounted (s : State) : Prop where
  cores_pos : 0 < s.cores
  ids_perm : (ids s).Perm (List.range s.registerWorker)
  chosen_lt : ∀ r ∈ s.pending, ∀ p, r.phase = .chosen p → p < s.cores
  sum_served : ∑ p ∈ Finset.range s.cores, s.workersServed p =
    s.completed.length + s.pending.countP Registration.isCounted

variable {s t : State}

theorem Accounted.of_start (h : Start s) : Accounted s := by
  constructor
  · exact h.cores_pos
  · rw [ids, h.pending_eq, h.completed_eq, h.registerWorker_eq]
    exact List.Perm.refl _
  · rw [h.pending_eq]
    simp
  · rw [h.completed_eq, h.pending_eq]
    apply Finset.sum_eq_zero
    intro p hp
    exact h.workersServed_eq p (Finset.mem_range.mp hp)

section

variable (h : Accounted s)

include h

theorem Accounted.of_set {i : Nat} {r r' : Registration} (hget : s.pending[i]? = some r)
    (hpending : t.pending = s.pending.set i r') (hid : r'.workerId = r.workerId)
    (hcores : t.cores = s.cores) (hregister : t.registerWorker = s.registerWorker)
    (hcompleted : t.completed = s.completed) (hchosen : ∀ p, r'.phase = .chosen p → p < s.cores)
    (hsum : ∑ p ∈ Finset.range s.cores, t.workersServed p + r.isCounted.toNat =
      ∑ p ∈ Finset.range s.cores, s.workersServed p + r'.isCounted.toNat) :
    Accounted t := by
  have hperm := perm_of_getElem? hget
  have hset := set_perm_of_getElem? hget r'
  constructor
  · rw [hcores]
    exact h.cores_pos
  · have hids : (ids t).Perm (ids s) := by
      rw [ids, ids, hpending, hcompleted]
      apply List.Perm.append_right
      refine (hset.map _).trans ?_
      rw [map_cons, hid, ← map_cons]
      exact (hperm.map _).symm
    rw [hregister]
    exact hids.trans h.ids_perm
  · rw [hpending, hcores]
    intro r'' hr'' p hp
    rcases mem_or_eq_of_mem_set hr'' with hmem | rfl
    · exact h.chosen_lt r'' hmem p hp
    · exact hchosen p hp
  · have hold := hperm.countP_eq Registration.isCounted
    have hnew := hset.countP_eq Registration.isCounted
    have hsums := h.sum_served
    rw [countP_cons] at hold hnew
    rw [hcores, hcompleted, hpending]
    cases hr : r.isCounted <;> cases hr' : r'.isCounted <;>
      simp only [hr, hr', Bool.toNat_true, Bool.toNat_false, if_true, if_false,
        Bool.false_eq_true] at hold hnew hsum <;> omega

theorem Accounted.draw {process : Nat} {origin : Origin} (hstep : draw s process origin = some t) :
    Accounted t := by
  obtain ⟨-, ⟨⟩⟩ := Option.ite_none_left_eq_some.mp hstep
  constructor
  · exact h.cores_pos
  · change (s.registerWorker :: ids s).Perm (List.range (s.registerWorker + 1))
    rw [range_succ]
    exact (h.ids_perm.cons _).trans (perm_append_singleton _ _).symm
  · intro r hr p hp
    rcases mem_cons.mp hr with rfl | hr
    · cases hp
    · exact h.chosen_lt r hr p hp
  · exact h.sum_served

theorem Accounted.choose {i : Nat} (hstep : choose s i = some t) : Accounted t := by
  unfold Workers.choose at hstep
  split at hstep
  · rename_i hget
    cases hstep
    refine h.of_set hget rfl rfl rfl rfl rfl ?_ ?_
    · rintro p ⟨⟩
      exact getStackProcId_lt _ h.cores_pos
    · rfl
  · cases hstep

theorem Accounted.count {i : Nat} (hstep : count s i = some t) : Accounted t := by
  unfold Workers.count at hstep
  split at hstep
  · rename_i process origin id p hget
    cases hstep
    have hp : p < s.cores := h.chosen_lt _ (List.mem_of_getElem? hget) p rfl
    refine h.of_set hget rfl rfl rfl rfl rfl ?_ ?_
    · rintro p ⟨⟩
    · have hmem := Finset.mem_range.mpr hp
      have hsplit := Finset.add_sum_erase _ s.workersServed hmem
      rw [← Finset.sdiff_singleton_eq_erase] at hsplit
      rw [Finset.sum_update_of_mem hmem, ← hsplit]
      change _ + 0 = _ + 1
      omega
  · cases hstep

theorem Accounted.enterPid {i : Nat} (hstep : enterPid s i = some t) : Accounted t := by
  unfold Workers.enterPid at hstep
  split at hstep
  · rename_i hget
    cases hstep
    refine h.of_set hget rfl rfl rfl rfl rfl ?_ ?_
    · rintro p ⟨⟩
    · rfl
  · cases hstep

theorem Accounted.enterProc {i : Nat} (hstep : enterProc s i = some t) : Accounted t := by
  unfold Workers.enterProc at hstep
  split at hstep
  · rename_i process origin id p hget
    cases hstep
    have hperm := perm_of_getElem? hget
    constructor
    · exact h.cores_pos
    · refine List.Perm.trans ?_ h.ids_perm
      change (_ ++ id :: _).Perm _
      refine perm_middle.trans ?_
      rw [ids, ← cons_append]
      exact (hperm.symm.map Registration.workerId).append_right _
    · intro r hr
      exact h.chosen_lt r (mem_of_mem_eraseIdx hr)
    · have hcount := hperm.countP_eq Registration.isCounted
      rw [countP_cons_of_pos rfl] at hcount
      rw [h.sum_served, hcount, length_cons]
      dsimp only
      omega
  · cases hstep

theorem Accounted.step {a : Action} (hstep : step s a = some t) : Accounted t := by
  cases a with
  | draw process origin => exact h.draw hstep
  | choose i => exact h.choose hstep
  | count i => exact h.count hstep
  | enterPid i => exact h.enterPid hstep
  | enterProc i => exact h.enterProc hstep

end

namespace Accounted

section

variable (h : Accounted s)

include h

theorem ids_nodup : (ids s).Nodup := h.ids_perm.nodup_iff.mpr nodup_range

theorem served_le {p : Nat} (hp : p < s.cores) : s.workersServed p ≤ s.registerWorker := by
  have hlength := h.ids_perm.length_eq
  rw [ids, length_append, length_map, length_map, length_range] at hlength
  calc s.workersServed p ≤ ∑ q ∈ Finset.range s.cores, s.workersServed q :=
        Finset.single_le_sum (fun q _ => Nat.zero_le _) (Finset.mem_range.mpr hp)
    _ = s.completed.length + s.pending.countP Registration.isCounted := h.sum_served
    _ ≤ s.completed.length + s.pending.length := Nat.add_le_add_left countP_le_length _
    _ = s.registerWorker := by rw [← hlength, Nat.add_comm]

theorem id_ne {r : Registration} (hr : r ∈ s.pending) {w : Worker} (hw : w ∈ s.completed) :
    w.workerId ≠ r.workerId := by
  have hdisjoint := disjoint_of_nodup_append h.ids_nodup
  intro heq
  exact hdisjoint (mem_map_of_mem hr) (heq ▸ mem_map_of_mem hw)

theorem pending_eq_of_id {r r' : Registration} (hr : r ∈ s.pending) (hr' : r' ∈ s.pending)
    (heq : r'.workerId = r.workerId) : r' = r :=
  inj_on_of_nodup_map (List.Nodup.of_append_left h.ids_nodup) hr' hr heq

theorem id_lt {r : Registration} (hr : r ∈ s.pending) : r.workerId < s.registerWorker := by
  have hmem : r.workerId ∈ ids s := mem_append_left _ (mem_map_of_mem hr)
  exact mem_range.mp (h.ids_perm.mem_iff.mp hmem)

end

end Accounted

/-! ## Balance and tables -/

def Balanced (f : Nat → Nat) (n : Nat) : Prop := ∀ p < n, ∀ q < n, f p ≤ f q + 1

theorem Balanced.update {f : Nat → Nat} {n p : Nat} (h : Balanced f n)
    (hleast : ∀ q < n, f p ≤ f q) : Balanced (update f p (f p + 1)) n := by
  intro q hq q' hq'
  by_cases heq : q = p <;> by_cases heq' : q' = p
  · rw [heq, heq']
    exact Nat.le_succ _
  · rw [heq, update_self, update_of_ne heq']
    exact Nat.succ_le_succ (hleast q' hq')
  · rw [heq', update_self, update_of_ne heq, ← heq']
    exact Nat.le_succ_of_le (h q hq q' hq')
  · rw [update_of_ne heq, update_of_ne heq']
    exact h q hq q' hq'

structure Fair (s : State) : Prop where
  registered_le : s.registerWorker ≤ maxWorker
  apart : (s.pending.map Registration.process).Nodup
  own_id : ∀ r ∈ s.pending, s.workerId r.process = r.workerId
  one_chosen : s.pending.countP Registration.isChosen ≤ 1
  least : ∀ r ∈ s.pending, ∀ p, r.phase = .chosen p →
    ∀ q < s.cores, s.workersServed p ≤ s.workersServed q
  balanced : Balanced s.workersServed s.cores
  pid_entered : ∀ r ∈ s.pending, ∀ p, r.phase = .pidEntered p →
    s.workerAppids r.workerId = some r.process
  entered : ∀ w ∈ s.completed, s.workerAppids w.workerId = some w.process ∧
    s.workerProcids w.workerId = some w.stackProcId
  no_overrun : s.overrun = false

theorem Fair.of_start (h : Start s) : Fair s := by
  constructor
  case balanced =>
    intro p hp q hq
    rw [h.workersServed_eq p hp]
    exact Nat.zero_le _
  case no_overrun => exact h.overrun_eq
  all_goals simp [h.registerWorker_eq, h.pending_eq, h.completed_eq]

theorem Fair.draw {process : Nat} {origin : Origin} (h : Fair s)
    (hguard : Separate s (.draw process origin))
    (hstep : draw s process origin = some t) : Fair t := by
  obtain ⟨-, ⟨⟩⟩ := Option.ite_none_left_eq_some.mp hstep
  obtain ⟨hroom, halone⟩ := hguard
  have hother : ∀ r ∈ s.pending, r.process ≠ process := by
    intro r hr
    exact of_decide_eq_true (all_eq_true.mp halone r hr)
  refine
    { h with registered_le := hroom, apart := ?_, own_id := ?_, least := ?_, pid_entered := ?_ }
  · apply nodup_cons.mpr
    refine ⟨?_, h.apart⟩
    intro hmem
    obtain ⟨r, hr, heq⟩ := mem_map.mp hmem
    exact hother r hr heq
  · intro r hr
    rcases mem_cons.mp hr with rfl | hr
    · exact update_self _ _ _
    · exact (update_of_ne (hother r hr) _ _).trans (h.own_id r hr)
  · intro r hr p hp
    rcases mem_cons.mp hr with rfl | hr
    · cases hp
    · exact h.least r hr p hp
  · intro r hr p hp
    rcases mem_cons.mp hr with rfl | hr
    · cases hp
    · exact h.pid_entered r hr p hp

variable {r : Registration}

theorem Fair.apart_set {r' : Registration} (h : Fair s) (hget : s.pending[i]? = some r)
    (hprocess : r'.process = r.process) :
    ((s.pending.set i r').map Registration.process).Nodup := by
  refine (List.Perm.nodup_iff ?_).mpr h.apart
  refine ((set_perm_of_getElem? hget r').map _).trans ?_
  rw [map_cons, hprocess, ← map_cons]
  exact ((perm_of_getElem? hget).map _).symm

theorem Fair.own_id_set {r' : Registration} (h : Fair s) (hget : s.pending[i]? = some r)
    (hprocess : r'.process = r.process) (hid : r'.workerId = r.workerId) :
    ∀ x ∈ s.pending.set i r', s.workerId x.process = x.workerId := by
  intro x hx
  rcases mem_or_eq_of_mem_set hx with hx | rfl
  · exact h.own_id x hx
  · rw [hprocess, hid]
    exact h.own_id r (List.mem_of_getElem? hget)

theorem Fair.choose (hids : Accounted s) (h : Fair s) (hguard : Separate s (.choose i))
    (hstep : choose s i = some t) : Fair t := by
  obtain ⟨hcores, hnobody⟩ := hguard
  have hnum : numProcs s.cores = s.cores := if_pos hcores
  unfold Workers.choose at hstep
  split at hstep
  · rename_i process origin id hget
    cases hstep
    refine { h with
      apart := h.apart_set hget rfl
      own_id := h.own_id_set hget rfl rfl
      one_chosen := ?_
      least := ?_
      pid_entered := ?_ }
    · have hnone : s.pending.countP Registration.isChosen = 0 := by
        rw [countP_eq_zero]
        intro r hr hchosen
        rw [any_eq_false] at hnobody
        exact hnobody r hr hchosen
      have hold := (perm_of_getElem? hget).countP_eq Registration.isChosen
      rw [(set_perm_of_getElem? hget _).countP_eq, countP_cons_of_pos rfl]
      rw [countP_cons_of_neg (by simp [Registration.isChosen])] at hold
      omega
    · intro r hr p hp q hq
      rcases mem_or_eq_of_mem_set hr with hr | rfl
      · exact h.least r hr p hp q hq
      · cases hp
        rw [hnum]
        apply getStackProcId_le _ _ hq
        intro p hp
        exact Nat.le_trans (hids.served_le hp) h.registered_le
    · intro r hr p hp
      rcases mem_or_eq_of_mem_set hr with hr | rfl
      · exact h.pid_entered r hr p hp
      · cases hp
  · cases hstep

theorem Fair.not_chosen {p : Nat} {r' : Registration} (h : Fair s) (hget : s.pending[i]? = some r)
    (hr : r.phase = .chosen p) (hr' : r'.isChosen = false) :
    ∀ x ∈ s.pending.set i r', x.isChosen = false := by
  have hold := (perm_of_getElem? hget).countP_eq Registration.isChosen
  have hnew := (set_perm_of_getElem? hget r').countP_eq Registration.isChosen
  rw [countP_cons_of_pos (by rw [Registration.isChosen, hr])] at hold
  rw [countP_cons_of_neg (by simp [hr'])] at hnew
  have hone := h.one_chosen
  have hzero : (s.pending.set i r').countP Registration.isChosen = 0 := by omega
  intro x hx
  exact Bool.eq_false_of_not_eq_true (countP_eq_zero.mp hzero x hx)

theorem Fair.count (h : Fair s) (hstep : count s i = some t) : Fair t := by
  unfold Workers.count at hstep
  split at hstep
  · rename_i process origin id p hget
    cases hstep
    have hmem := List.mem_of_getElem? hget
    have hnone : ∀ x ∈ s.pending.set i ⟨process, origin, id, .counted p⟩,
        x.isChosen = false := h.not_chosen hget rfl rfl
    refine { h with
      apart := h.apart_set hget rfl
      own_id := h.own_id_set hget rfl rfl
      one_chosen := ?_
      least := ?_
      balanced := h.balanced.update (h.least _ hmem p rfl)
      pid_entered := ?_ }
    · rw [countP_eq_zero.mpr fun x hx => by rw [hnone x hx]; exact Bool.false_ne_true]
      exact Nat.zero_le _
    · intro r hr q hq
      have := hnone r hr
      rw [Registration.isChosen, hq] at this
      cases this
    · intro r hr q hq
      rcases mem_or_eq_of_mem_set hr with hr | rfl
      · exact h.pid_entered r hr q hq
      · cases hq
  · cases hstep

theorem Fair.overrun_enter (h : Fair s) (hids : Accounted s) (hr : r ∈ s.pending) :
    (s.overrun || decide (maxWorker ≤ s.workerId r.process)) = false := by
  have hlt : r.workerId < maxWorker := Nat.lt_of_lt_of_le (hids.id_lt hr) h.registered_le
  rw [h.no_overrun, h.own_id r hr]
  exact decide_eq_false (Nat.not_le_of_lt hlt)

theorem Fair.enterPid (hids : Accounted s) (h : Fair s) (hstep : enterPid s i = some t) :
    Fair t := by
  unfold Workers.enterPid at hstep
  split at hstep
  · rename_i process origin id p hget
    cases hstep
    have hmem := List.mem_of_getElem? hget
    have hid : s.workerId process = id := h.own_id _ hmem
    refine { h with
      apart := h.apart_set hget rfl
      own_id := h.own_id_set hget rfl rfl
      one_chosen := ?_
      least := ?_
      pid_entered := ?_
      entered := ?_
      no_overrun := h.overrun_enter hids hmem }
    · have hold := (perm_of_getElem? hget).countP_eq Registration.isChosen
      have hone := h.one_chosen
      rw [countP_cons_of_neg (by simp [Registration.isChosen])] at hold
      rw [(set_perm_of_getElem? hget _).countP_eq,
        countP_cons_of_neg (by simp [Registration.isChosen])]
      omega
    · intro r hr q hq
      rcases mem_or_eq_of_mem_set hr with hr | rfl
      · exact h.least r hr q hq
      · cases hq
    · intro r hr q hq
      rcases mem_or_eq_of_mem_set hr with hr | rfl
      · by_cases heq : r.workerId = id
        · obtain rfl := hids.pending_eq_of_id hmem hr heq
          cases hq
        · exact (update_of_ne (hid ▸ heq) _ _).trans (h.pid_entered r hr q hq)
      · rw [hid]
        exact update_self _ _ _
    · intro w hw
      obtain ⟨hpid, hproc⟩ := h.entered w hw
      refine ⟨?_, hproc⟩
      exact (update_of_ne (hid ▸ hids.id_ne hmem hw) _ _).trans hpid
  · cases hstep

theorem Fair.enterProc (hids : Accounted s) (h : Fair s) (hstep : enterProc s i = some t) :
    Fair t := by
  unfold Workers.enterProc at hstep
  split at hstep
  · rename_i process origin id p hget
    cases hstep
    have hmem := List.mem_of_getElem? hget
    have hid : s.workerId process = id := h.own_id _ hmem
    have hsub : (s.pending.eraseIdx i).Sublist s.pending := eraseIdx_sublist _ _
    refine { h with
      apart := (hsub.map _).nodup h.apart
      own_id := fun r hr => h.own_id r (hsub.subset hr)
      one_chosen := Nat.le_trans hsub.countP_le h.one_chosen
      least := fun r hr => h.least r (hsub.subset hr)
      pid_entered := fun r hr => h.pid_entered r (hsub.subset hr)
      entered := ?_
      no_overrun := h.overrun_enter hids hmem }
    intro w hw
    rcases mem_cons.mp hw with rfl | hw
    · refine ⟨h.pid_entered _ hmem p rfl, ?_⟩
      rw [hid]
      exact update_self _ _ _
    · obtain ⟨hpid, hproc⟩ := h.entered w hw
      refine ⟨hpid, ?_⟩
      exact (update_of_ne (hid ▸ hids.id_ne hmem hw) _ _).trans hproc
  · cases hstep

theorem Fair.step {a : Action} (hids : Accounted s) (h : Fair s) (hguard : Separate s a)
    (hstep : step s a = some t) : Fair t := by
  cases a with
  | draw process origin => exact h.draw hguard hstep
  | choose i => exact h.choose hids hguard hstep
  | count i => exact h.count hstep
  | enterPid i => exact h.enterPid hids hstep
  | enterProc i => exact h.enterProc hids hstep

/-- If registrations are `Separate`, ids are different, and the counters add up to the completed
registrations and differ by at most one between them. -/
theorem workers_balanced (hreach : system.ReachableUnder Separate s) : (ids s).Nodup ∧
      (∀ w ∈ s.completed, s.workerAppids w.workerId = some w.process ∧
        s.workerProcids w.workerId = some w.stackProcId) ∧
      s.overrun = false ∧
      ∑ p ∈ Finset.range s.cores, s.workersServed p =
        s.completed.length + s.pending.countP Registration.isCounted ∧
      (s.pending = [] → ∀ p < s.cores, ∀ q < s.cores,
        s.workersServed p ≤ s.workersServed q + 1) := by
  have hinv : Accounted s ∧ Fair s := by
    apply hreach.invariant
    · intro s hinit
      exact ⟨Accounted.of_start hinit, Fair.of_start hinit⟩
    · rintro s a t ⟨hids, h⟩ hguard hstep
      exact ⟨hids.step hstep, h.step hids hguard hstep⟩
  obtain ⟨hids, h⟩ := hinv
  exact ⟨hids.ids_nodup, h.entered, h.no_overrun, hids.sum_served, fun _ => h.balanced⟩

def created (cores : Nat) : State where
  cores := cores
  registerWorker := 0
  workersServed := fun _ => 0
  workerAppids := fun _ => none
  workerProcids := fun _ => none
  workerId := fun _ => 0
  pending := []
  completed := []
  overrun := false

theorem created_start {cores : Nat} (hcores : 0 < cores) : Start (created cores) :=
  ⟨hcores, rfl, fun _ _ => rfl, rfl, rfl, rfl⟩

def finish : List Action := [.choose 0, .count 0, .enterPid 0, .enterProc 0]

theorem workers_balanced_fork : ∃ s, system.ReachableUnder Separate s ∧ s.pending = [] ∧
      s.workersServed 0 = 1 ∧ s.workersServed 1 = 1 ∧ (ids s).Nodup ∧
      ∀ p < s.cores, ∀ q < s.cores, s.workersServed p ≤ s.workersServed q + 1 := by
  obtain ⟨s, hreach, hquiet, hfirst, hsecond⟩ :=
    system.exists_reachableUnder Separate (created 2)
    ([Action.draw 10 .init, .draw 11 .fork] ++ finish ++ finish)
    (P := fun s => s.pending = [] ∧ s.workersServed 0 = 1 ∧ s.workersServed 1 = 1)
    (created_start (by decide)) (by decide +kernel)
  obtain ⟨hnodup, -, -, -, hbalanced⟩ := workers_balanced hreach
  exact ⟨s, hreach, hquiet, hfirst, hsecond, hnodup, hbalanced hquiet⟩

theorem workers_unbalanced : ∃ s, system.Reachable s ∧ s.pending = [] ∧ s.cores = 2 ∧
      s.workersServed 0 = 2 ∧ s.workersServed 1 = 0 :=
  system.exists_reachable (created 2)
    [.draw 10 .fork, .draw 11 .fork, .choose 0, .choose 1, .count 0, .enterPid 0,
      .enterProc 0, .count 0, .enterPid 0, .enterProc 0]
    (created_start (by decide)) (by decide +kernel)

end LightStack.Workers
