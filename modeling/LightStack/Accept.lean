import LightStack.Lib.Transition
import Mathlib.Data.List.Count
import Mathlib.Data.Fintype.Basic

/-!
# Accepting connections in several workers

Workers that inherit a listener accept from one `rx_ring`, whose dequeue has no compare and set.
-/

namespace LightStack.Accept

open Lib Function

inductive Pc where
  | idle
  | polling (nonblock : Bool)
  | dequeuing (nonblock : Bool)
  | loaded (nonblock : Bool) (head : Nat)
  | claimed (nonblock : Bool) (head : Nat)
  | copied (nonblock : Bool) (head conn : Nat)
  deriving DecidableEq

inductive Outcome where
  | conn (k : Nat)
  | again
  | failed
  deriving DecidableEq

structure Result where
  nonblock : Bool
  outcome : Outcome
  deriving DecidableEq

structure State (n : Nat) where
  size : Nat
  slots : Nat → Nat
  prodTail : Nat
  consHead : Nat
  consTail : Nat
  isNonblock : Bool
  pc : Fin n → Pc
  results : List Result

variable {n : Nat}

def State.setPc (s : State n) (w : Fin n) (pc : Pc) : State n :=
  { s with pc := update s.pc w pc }

def State.finish (s : State n) (w : Fin n) (nonblock : Bool) (outcome : Outcome) : State n :=
  { s.setPc w .idle with results := s.results ++ [⟨nonblock, outcome⟩] }

def State.ringEmpty (s : State n) : Prop := s.consTail = s.prodTail

instance (s : State n) : Decidable s.ringEmpty := inferInstanceAs (Decidable (_ = _))

def State.returned (s : State n) : List Nat :=
  s.results.filterMap fun r => match r.outcome with
    | .conn k => some k
    | .again => none
    | .failed => none

/-! ## The workers -/

def test (s : State n) (w : Fin n) : Option (State n) :=
  match s.pc w with
  | .polling nonblock =>
    if s.ringEmpty then
      if nonblock then some (s.finish w nonblock .again) else some s
    else some (s.setPc w (.dequeuing nonblock))
  | _ => none

def dequeue (s : State n) (w : Fin n) : Option (State n) :=
  match s.pc w with
  | .dequeuing nonblock =>
    if s.consHead < s.prodTail then some (s.setPc w (.loaded nonblock s.consHead))
    else some (s.finish w nonblock .failed)
  | .loaded nonblock head => some { s.setPc w (.claimed nonblock head) with consHead := head + 1 }
  | .claimed nonblock head => some (s.setPc w (.copied nonblock head (s.slots (head % s.size))))
  | .copied nonblock head conn =>
    some { s.finish w nonblock (.conn conn) with consTail := head + 1 }
  | _ => none

def post (s : State n) : State n :=
  if s.prodTail - s.consTail < s.size - 1 then
    { s with
      slots := update s.slots (s.prodTail % s.size) s.prodTail
      prodTail := s.prodTail + 1 }
  else s

inductive Action (n : Nat) where
  | call (w : Fin n)
  | test (w : Fin n)
  | dequeue (w : Fin n)
  | post
  | setNonblock (b : Bool)

def step (s : State n) : Action n → Option (State n)
  | .call w => if s.pc w = .idle then some (s.setPc w (.polling s.isNonblock)) else none
  | .test w => test s w
  | .dequeue w => dequeue s w
  | .post => some (post s)
  | .setNonblock b => some { s with isNonblock := b }

structure Start (s : State n) : Prop where
  prodTail : s.prodTail = 0
  consHead : s.consHead = 0
  consTail : s.consTail = 0
  pc : ∀ w, s.pc w = .idle
  results : s.results = []

def system (n : Nat) : TransitionSystem (State n) (Action n) where
  init := Start
  step := step

def Result.Proper (r : Result) : Prop :=
  match r.outcome with
  | .conn _ => True
  | .again => r.nonblock = true
  | .failed => False

def Pc.past : Pc → Bool
  | .idle => false
  | .polling _ => false
  | _ => true

def Serial (s : State n) : Action n → Prop
  | .test _ => s.ringEmpty ∨ ∀ w, (s.pc w).past = false
  | _ => True

instance (s : State n) (a : Action n) : Decidable (Serial s a) := by
  cases a <;> dsimp only [Serial] <;> infer_instance

/-! ## The invariant -/

def Fits (s : State n) : Pc → Prop
  | .idle => True
  | .polling _ => True
  | .dequeuing _ => s.consHead = s.consTail ∧ s.consTail < s.prodTail
  | .loaded _ head => head = s.consTail ∧ s.consHead = s.consTail ∧ s.consTail < s.prodTail
  | .claimed _ head => head = s.consTail ∧ s.consHead = head + 1 ∧ head < s.prodTail
  | .copied _ head conn =>
    head = s.consTail ∧ s.consHead = head + 1 ∧ head < s.prodTail ∧ conn = head

structure Good (s : State n) : Prop where
  order : s.consTail ≤ s.prodTail
  bounded : s.prodTail ≤ s.consTail + (s.size - 1)
  slots : ∀ k, s.consTail ≤ k → k < s.prodTail → s.slots (k % s.size) = k
  quiet : (∀ w, (s.pc w).past = false) → s.consHead = s.consTail
  single : ∀ w w', (s.pc w).past = true → (s.pc w').past = true → w = w'
  fits : ∀ w, Fits s (s.pc w)
  returned : ∀ k, s.returned.count k = if k < s.consTail then 1 else 0
  proper : ∀ r ∈ s.results, r.Proper

namespace Good

variable {s t : State n} {w : Fin n}

theorem start (h : Start s) : Good s where
  order := by rw [h.consTail, h.prodTail]
  bounded := by simp [h.prodTail]
  slots := by simp [h.prodTail]
  quiet := fun _ => by rw [h.consHead, h.consTail]
  single := by simp [h.pc, Pc.past]
  fits := by simp [h.pc, Fits]
  returned := by simp [State.returned, h.results, h.consTail]
  proper := by simp [h.results]

theorem setPc_idle (h : Good s) {pc : Pc} (hold : (s.pc w).past = false) (hnew : pc.past = false) :
    Good (s.setPc w pc) := by
  have hpast : ∀ v, ((s.setPc w pc).pc v).past = (s.pc v).past := by
    intro v
    by_cases hv : v = w
    · simp [State.setPc, hv, hold, hnew]
    · simp [State.setPc, hv]
  have hfits : Fits s pc := by cases pc <;> trivial
  refine ⟨h.order, h.bounded, h.slots, ?_, ?_, fun v => ?_, h.returned, h.proper⟩
  · intro hquiet
    exact h.quiet fun v => (hpast v).symm.trans (hquiet v)
  · intro v v' hv hv'
    exact h.single v v' ((hpast v).symm.trans hv) ((hpast v').symm.trans hv')
  · by_cases hv : v = w
    · subst hv
      simpa [State.setPc, Fits] using hfits
    · simpa [State.setPc, hv, Fits] using h.fits v

theorem others (h : Good s) (hw : (s.pc w).past = true) {v : Fin n} (hv : v ≠ w) :
    (s.pc v).past = false := by
  by_contra hpast
  exact hv (h.single v w (by simpa using hpast) hw)

theorem of_worker (hothers : ∀ v, v ≠ w → (s.pc v).past = false)
    (hpc : ∀ v, v ≠ w → t.pc v = s.pc v) (horder : t.consTail ≤ t.prodTail)
    (hbounded : t.prodTail ≤ t.consTail + (t.size - 1))
    (hslots : ∀ k, t.consTail ≤ k → k < t.prodTail → t.slots (k % t.size) = k)
    (hquiet : (t.pc w).past = false → t.consHead = t.consTail) (hfits : Fits t (t.pc w))
    (hreturned : ∀ k, t.returned.count k = if k < t.consTail then 1 else 0)
    (hproper : ∀ r ∈ t.results, r.Proper) : Good t := by
  have hidle : ∀ v, v ≠ w → (t.pc v).past = false := fun v hv => by
    rw [hpc v hv]
    exact hothers v hv
  refine ⟨horder, hbounded, hslots, fun hq => hquiet (hq w), ?_, fun v => ?_, hreturned, hproper⟩
  · intro v v' hv hv'
    have heq : ∀ u, (t.pc u).past = true → u = w := fun u hu => by
      by_contra hne
      exact nomatch (hidle u hne).symm.trans hu
    rw [heq v hv, heq v' hv']
  · by_cases hv : v = w
    · rw [hv]
      exact hfits
    · have hpast := hidle v hv
      cases hcase : t.pc v <;> simp [hcase, Pc.past] at hpast <;> trivial

theorem returned_finish_conn {nonblock : Bool} {k : Nat} :
    (s.finish w nonblock (.conn k)).returned = s.returned ++ [k] := by
  simp [State.finish, State.returned]

theorem returned_finish_again {nonblock : Bool} :
    (s.finish w nonblock .again).returned = s.returned := by
  simp [State.finish, State.returned]

theorem proper_append (h : Good s) {r : Result} (hr : r.Proper) :
    ∀ r' ∈ s.results ++ [r], r'.Proper := by
  intro r' hr'
  obtain hold | hnew := List.mem_append.mp hr'
  · exact h.proper r' hold
  · obtain rfl := List.mem_singleton.mp hnew
    exact hr

theorem test (h : Good s) (hserial : s.ringEmpty ∨ ∀ v, (s.pc v).past = false)
    (hstep : test s w = some t) : Good t := by
  unfold Accept.test at hstep
  split at hstep
  · next nonblock hpc =>
    have hidle : (s.pc w).past = false := by rw [hpc]; rfl
    split at hstep
    · split at hstep
      · next hnonblock =>
        cases hstep
        have hset := h.setPc_idle hidle (rfl : Pc.idle.past = false)
        refine ⟨hset.order, hset.bounded, hset.slots, hset.quiet, hset.single, hset.fits, ?_, ?_⟩
        · rw [returned_finish_again]
          exact h.returned
        · exact h.proper_append hnonblock
      · cases hstep
        exact h
    · next hfull =>
      cases hstep
      have hnone := hserial.resolve_left hfull
      have hlt : s.consTail < s.prodTail := lt_of_le_of_ne h.order hfull
      refine of_worker (w := w) (fun v _ => hnone v) (fun v hv => by simp [State.setPc, hv])
        h.order h.bounded h.slots ?_ ?_ h.returned h.proper
      · simp [State.setPc, Pc.past]
      · simpa [State.setPc, Fits] using ⟨h.quiet hnone, hlt⟩
  · cases hstep

theorem dequeue (h : Good s) (hstep : dequeue s w = some t) : Good t := by
  have hfits := h.fits w
  unfold Accept.dequeue at hstep
  split at hstep
  · next nonblock hpc =>
    rw [hpc] at hfits
    obtain ⟨hhead, hlt⟩ := hfits
    rw [if_pos (hhead ▸ hlt)] at hstep
    cases hstep
    refine of_worker (w := w) (fun v hv => h.others (by rw [hpc]; rfl) hv)
      (fun v hv => by simp [State.setPc, hv]) h.order h.bounded h.slots ?_ ?_ h.returned h.proper
    · simp [State.setPc, Pc.past]
    · simpa [State.setPc, Fits] using ⟨hhead, hlt⟩
  · next nonblock head hpc =>
    rw [hpc] at hfits
    obtain ⟨rfl, -, hlt⟩ := hfits
    cases hstep
    refine of_worker (w := w) (fun v hv => h.others (by rw [hpc]; rfl) hv)
      (fun v hv => by simp [State.setPc, hv]) h.order h.bounded h.slots ?_ ?_ h.returned h.proper
    · simp [State.setPc, Pc.past]
    · simpa [State.setPc, Fits] using hlt
  · next nonblock head hpc =>
    rw [hpc] at hfits
    obtain ⟨rfl, hhead, hlt⟩ := hfits
    cases hstep
    refine of_worker (w := w) (fun v hv => h.others (by rw [hpc]; rfl) hv)
      (fun v hv => by simp [State.setPc, hv]) h.order h.bounded h.slots ?_ ?_ h.returned h.proper
    · simp [State.setPc, Pc.past]
    · simpa [State.setPc, Fits] using ⟨hhead, hlt, h.slots s.consTail le_rfl hlt⟩
  · next nonblock head conn hpc =>
    rw [hpc] at hfits
    obtain ⟨rfl, hhead, hlt, rfl⟩ := hfits
    cases hstep
    have hbounded := h.bounded
    refine of_worker (w := w) (fun v hv => h.others (by rw [hpc]; rfl) hv)
      (fun v hv => by simp [State.finish, State.setPc, hv]) hlt ?_ ?_ ?_ ?_ ?_
      (h.proper_append trivial)
    · change s.prodTail ≤ s.consTail + 1 + (s.size - 1)
      omega
    · intro k hk hk'
      exact h.slots k (Nat.le_of_succ_le hk) hk'
    · intro _
      exact hhead
    · simp [State.finish, State.setPc, Fits]
    · intro k
      change ((s.finish w nonblock (.conn s.consTail)).returned).count k = _
      rw [returned_finish_conn, List.count_append, h.returned k, List.count_singleton]
      by_cases hk : k = s.consTail
      · simp [hk]
      · by_cases hless : k < s.consTail
        · simp [hless, Ne.symm hk, Nat.lt_succ_of_lt hless]
        · have hnot : ¬ k < s.consTail + 1 := by omega
          simp [hless, Ne.symm hk, hnot]
  · cases hstep

theorem post (h : Good s) : Good (post s) := by
  unfold Accept.post
  split
  · next hroom =>
    have horder := h.order
    have hbounded := h.bounded
    refine ⟨Nat.le_succ_of_le h.order, ?_, ?_, h.quiet, h.single, fun v => ?_, h.returned, h.proper⟩
    · change s.prodTail + 1 ≤ s.consTail + (s.size - 1)
      omega
    · intro k hk hk'
      change s.consTail ≤ k at hk
      change k < s.prodTail + 1 at hk'
      change update s.slots (s.prodTail % s.size) s.prodTail (k % s.size) = k
      by_cases heq : k = s.prodTail
      · subst heq
        exact update_self ..
      · have hne : k % s.size ≠ s.prodTail % s.size := by
          intro hmod
          have hdvd : s.size ∣ s.prodTail - k :=
            Nat.dvd_of_mod_eq_zero (Nat.sub_mod_eq_zero_of_mod_eq hmod.symm)
          have hle := Nat.le_of_dvd (by omega) hdvd
          omega
        rw [update_of_ne hne]
        exact h.slots k hk (by omega)
    · have hold := h.fits v
      cases hcase : s.pc v <;> simp only [hcase, Fits] at hold ⊢ <;> omega
  · exact h

theorem step (h : Good s) {a : Action n} (hserial : Serial s a)
    (hstep : Accept.step s a = some t) : Good t := by
  cases a with
  | call w =>
    obtain ⟨hidle, rfl⟩ := of_guard hstep
    exact h.setPc_idle (by rw [hidle]; rfl) rfl
  | test w => exact h.test hserial hstep
  | dequeue w => exact h.dequeue hstep
  | post =>
    cases hstep
    exact h.post
  | setNonblock b =>
    cases hstep
    exact ⟨h.order, h.bounded, h.slots, h.quiet, h.single, h.fits, h.returned, h.proper⟩

end Good

/-- If no worker passes its test while another is past its own, every posted connection is in the
ring, with that worker, or was returned once. -/
theorem accepted_exactly_once (s : State n) (hreach : (system n).ReachableUnder Serial s) :
    (∀ k, s.returned.count k = if k < s.consTail then 1 else 0) ∧ s.consTail ≤ s.prodTail ∧
      (∀ k, s.consTail ≤ k → k < s.prodTail → s.slots (k % s.size) = k) ∧
      ∀ r ∈ s.results, r.Proper := by
  have hgood : Good s :=
    TransitionSystem.ReachableUnder.invariant (fun _ => Good.start)
      (fun _ _ _ h hserial hstep => h.step hserial hstep) hreach
  exact ⟨hgood.returned, hgood.order, hgood.slots, hgood.proper⟩

def listening (n : Nat) (nonblock : Bool) : State n where
  size := 8
  slots := fun _ => 0
  prodTail := 0
  consHead := 0
  consTail := 0
  isNonblock := nonblock
  pc := fun _ => .idle
  results := []

theorem start_listening (n : Nat) (nonblock : Bool) : Start (listening n nonblock) :=
  ⟨rfl, rfl, rfl, fun _ => rfl, rfl⟩

theorem accepted_exactly_once_in_turn :
    ∃ s, (system 2).ReachableUnder Serial s ∧ s.prodTail = 3 ∧ s.returned = [0, 1] ∧
      ∀ k, s.returned.count k = if k < 2 then 1 else 0 := by
  obtain ⟨s, hreach, hposted, hreturned, htail⟩ :=
    (system 2).exists_reachableUnder Serial (listening 2 false)
      [.call 0, .call 1, .test 0, .post, .test 0, .post, .dequeue 0, .dequeue 0, .dequeue 0,
        .dequeue 0, .test 1, .dequeue 1, .post, .dequeue 1, .dequeue 1, .dequeue 1]
      (P := fun s => s.prodTail = 3 ∧ s.returned = [0, 1] ∧ s.consTail = 2)
      (start_listening 2 false) (by decide +kernel)
  have hcount := (accepted_exactly_once s hreach).1
  rw [htail] at hcount
  exact ⟨s, hreach, hposted, hreturned, hcount⟩

theorem accepted_twice_or_not_at_all :
    (∃ s, (system 2).Reachable s ∧ ⟨false, .failed⟩ ∈ s.results) ∧
    (∃ s, (system 2).Reachable s ∧ ⟨true, .failed⟩ ∈ s.results) ∧
    ∃ s, (system 2).Reachable s ∧ s.prodTail = 1 ∧ s.returned = [0, 0] := by
  refine ⟨?_, ?_, ?_⟩
  · exact (system 2).exists_reachable (listening 2 false)
      [.post, .call 0, .call 1, .test 0, .test 1, .dequeue 0, .dequeue 0, .dequeue 0, .dequeue 0,
        .dequeue 1] (start_listening 2 false) (by decide +kernel)
  · exact (system 2).exists_reachable (listening 2 true)
      [.post, .call 0, .call 1, .test 0, .test 1, .dequeue 0, .dequeue 0, .dequeue 0, .dequeue 0,
        .dequeue 1] (start_listening 2 true) (by decide +kernel)
  · exact (system 2).exists_reachable (listening 2 false)
      [.post, .call 0, .call 1, .test 0, .test 1, .dequeue 0, .dequeue 1, .dequeue 0, .dequeue 1,
        .dequeue 0, .dequeue 1, .dequeue 0, .dequeue 1] (start_listening 2 false)
      (by decide +kernel)

end LightStack.Accept
