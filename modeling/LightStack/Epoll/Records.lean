import LightStack.Epoll.Model
import LightStack.Lib.Ring

/-!
# Event records
-/

namespace LightStack.Epoll.Records

open Lib Function List

inductive Queue where
  | ready
  | shadow
  deriving DecidableEq

instance fintypeQueue : Fintype Queue := ⟨{.ready, .shadow}, fun q => by cases q <;> decide⟩

variable {epolls threads cap : Nat}

structure Job (epolls : Nat) where
  queue : Queue
  -- `none` is the entry of `g_light_epolls` at `-1`
  epoll : Option (Fin epolls)
  info : EventInfo

inductive Pc (epolls : Nat) where
  | idle
  | hasNode (node : Nat) (info : EventInfo)
  | hasIdx (node : Nat) (info : EventInfo) (epoll : Option (Fin epolls))
  | get (job : Job epolls)
  | fill (rec : Nat) (job : Job epolls)
  | enqueue (rec : Nat) (job : Job epolls)
  | astray
  | read (rec : Nat)
  | put (rec : Nat) (loop : Option (Queue × Fin epolls))
  | reset (queue : Queue) (epoll : Fin epolls)
  | clearEvents (node : Nat)

def Pc.hand : Pc epolls → List Nat
  | .fill r _ | .enqueue r _ | .read r | .put r _ => [r]
  | _ => []

structure State (epolls threads cap : Nat) where
  pool : List Nat
  info : Nat → EventInfo
  ring : Queue × Fin epolls → Ring Nat cap
  epollRing : List (Fin epolls)
  epollIdx : Nat → Option (Fin epolls)
  epollEvents : Nat → Event → Bool
  pc : Fin threads → Pc epolls

inductive Act (epolls : Nat) where
  | post (node : Nat) (info : EventInfo)
  | shadow (epoll : Fin epolls) (info : EventInfo)
  | take (queue : Queue) (epoll : Fin epolls)
  | register (node : Nat) (epoll : Fin epolls) (events : Event → Bool)
  | clear (node : Nat)
  | create
  | go

def State.goto (s : State epolls threads cap) (t : Fin threads) (p : Pc epolls) :
    State epolls threads cap :=
  { s with pc := update s.pc t p }

def advance (s : State epolls threads cap) (t : Fin threads) :
    Pc epolls → Option (State epolls threads cap)
  | .idle | .astray => none
  | .hasNode n info => some (s.goto t (.hasIdx n info (s.epollIdx n)))
  | .hasIdx n info e =>
    some (s.goto t (if s.epollEvents n info.event then .get ⟨.ready, e, info⟩ else .idle))
  | .get job =>
    match s.pool with
    | [] => some (s.goto t .idle)
    | r :: rest => some { s.goto t (.fill r job) with pool := rest }
  | .fill r job => some { s.goto t (.enqueue r job) with info := update s.info r job.info }
  | .enqueue r job =>
    match job.epoll with
    | none => some (s.goto t .astray)
    | some e =>
      match (s.ring (job.queue, e)).enqueue r with
      | none => some (s.goto t (.put r none))
      | some ring => some { s.goto t .idle with ring := update s.ring (job.queue, e) ring }
  | .read r => some (s.goto t (.put r none))
  | .put r loop =>
    some { s.goto t (loop.elim .idle fun i => .reset i.1 i.2) with pool := s.pool ++ [r] }
  | .reset q e =>
    match (s.ring (q, e)).dequeue with
    | none => some (s.goto t (if q = .ready then .reset .shadow e else .idle))
    | some (r, ring) =>
      some { s.goto t (.put r (some (q, e))) with ring := update s.ring (q, e) ring }
  | .clearEvents n =>
    some { s.goto t .idle with
      epollEvents := update s.epollEvents n fun _ => false }

def start (s : State epolls threads cap) (t : Fin threads) :
    Act epolls → Option (State epolls threads cap)
  | .post n info => some (s.goto t (.hasNode n info))
  | .shadow e info => some (s.goto t (.get ⟨.shadow, some e, info⟩))
  | .take q e =>
    (s.ring (q, e)).dequeue.map fun x =>
      { s.goto t (.read x.1) with ring := update s.ring (q, e) x.2 }
  | .register n e events =>
    some { s with
      epollIdx := update s.epollIdx n (some e)
      epollEvents := update s.epollEvents n events }
  | .clear n => some { s.goto t (.clearEvents n) with epollIdx := update s.epollIdx n none }
  | .create =>
    match s.epollRing with
    | [] => none
    | e :: rest => some { s.goto t (.reset .ready e) with epollRing := rest }
  | .go => none

def step (s : State epolls threads cap) (a : Fin threads × Act epolls) :
    Option (State epolls threads cap) :=
  match s.pc a.1, a.2 with
  | .idle, act => start s a.1 act
  | p, .go => advance s a.1 p
  | _, _ => none

structure Start (records : Nat) (s : State epolls threads cap) : Prop where
  pool : s.pool = List.range records
  ring : ∀ i, (s.ring i).items = []
  pc : ∀ t, s.pc t = .idle

def system (epolls threads cap records : Nat) :
    TransitionSystem (State epolls threads cap) (Fin threads × Act epolls) where
  init := Start records
  step := step

def atRest (s : State epolls threads cap) (r : Nat) : Nat :=
  s.pool.count r + ∑ i, (s.ring i).items.count r

def inHands (s : State epolls threads cap) (r : Nat) : Nat := ∑ t, (s.pc t).hand.count r

def idxValid (s : State epolls threads cap) (a : Fin threads × Act epolls) : Bool :=
  match s.pc a.1 with
  | .hasIdx n info none => !s.epollEvents n info.event
  | _ => true

/-! ## One step -/

theorem sum_update {ι β : Type*} [Fintype ι] [DecidableEq ι] (f : β → Nat) (g : ι → β) (i : ι)
    (y : β) : ∑ j, f (update g i y j) + f (g i) = ∑ j, f (g j) + f y := by
  have hrest : ∑ j ∈ Finset.univ.erase i, f (update g i y j) =
      ∑ j ∈ Finset.univ.erase i, f (g j) := by
    refine Finset.sum_congr rfl fun j hj => ?_
    rw [update_of_ne (Finset.ne_of_mem_erase hj)]
  rw [← Finset.add_sum_erase _ _ (Finset.mem_univ i), hrest, update_self,
    ← Finset.add_sum_erase _ (fun j => f (g j)) (Finset.mem_univ i)]
  omega

variable {s u : State epolls threads cap} {t : Fin threads}

def Pc.placed : Pc epolls → Prop
  | .get job | .fill _ job | .enqueue _ job => job.epoll ≠ none
  | .astray => False
  | _ => True

theorem inHands_goto {p : Pc epolls} (hpc : u.pc = update s.pc t p) (r : Nat) :
    inHands u r + (s.pc t).hand.count r = inHands s r + p.hand.count r := by
  unfold inHands
  rw [hpc]
  exact sum_update (fun p : Pc epolls => p.hand.count r) s.pc t p

variable {i : Queue × Fin epolls} {ring : Ring Nat cap}

theorem atRest_ring (hpool : u.pool = s.pool) (hring : u.ring = update s.ring i ring) (r : Nat) :
    atRest u r + (s.ring i).items.count r = atRest s r + ring.items.count r := by
  have hsum := sum_update (fun x : Ring Nat cap => x.items.count r) s.ring i ring
  unfold atRest
  rw [hpool, hring]
  omega

structure Conserved (records : Nat) (s : State epolls threads cap) : Prop where
  once : ∀ r, atRest s r + inHands s r = if r < records then 1 else 0
  placed : ∀ t, (s.pc t).placed

namespace Conserved

variable {records : Nat} {p : Pc epolls}

theorem of_start (h : Start records s) : Conserved records s := by
  constructor
  · intro r
    simp only [atRest, inHands, h.pool, h.ring, h.pc, Pc.hand, count_nil,
      Finset.sum_const_zero, Nat.add_zero]
    split
    · exact count_eq_one_of_mem nodup_range (mem_range.mpr ‹_›)
    · exact count_eq_zero.mpr fun hr => ‹¬_› (mem_range.mp hr)
  · intro t
    rw [h.pc t]
    trivial

section

variable (h : Conserved records s)

include h

theorem move (hpc : u.pc = update s.pc t p) (hplaced : p.placed)
    (hrest : ∀ r, atRest u r + p.hand.count r = atRest s r + (s.pc t).hand.count r) :
    Conserved records u := by
  constructor
  · intro r
    have hhands := inHands_goto hpc r
    have honce := h.once r
    have := hrest r
    omega
  · intro v
    rw [hpc]
    by_cases hv : v = t
    · rw [hv, update_self]
      exact hplaced
    · rw [update_of_ne hv]
      exact h.placed v

theorem goto (hpool : u.pool = s.pool) (hring : u.ring = s.ring) (hpc : u.pc = update s.pc t p)
    (hplaced : p.placed) (hhand : p.hand = (s.pc t).hand) : Conserved records u := by
  refine h.move hpc hplaced fun r => ?_
  rw [hhand, atRest, atRest, hpool, hring]

theorem dequeue {r : Nat} (hdequeue : (s.ring i).dequeue = some (r, ring))
    (hempty : (s.pc t).hand = []) (hpool : u.pool = s.pool) (hring : u.ring = update s.ring i ring)
    (hpc : u.pc = update s.pc t p) (hplaced : p.placed) (hhand : p.hand = [r]) :
    Conserved records u := by
  refine h.move hpc hplaced fun x => ?_
  have hitems := congrArg (List.count x) (Ring.dequeue_eq_some_iff.mp hdequeue)
  have hrest := atRest_ring hpool hring x
  rw [count_cons] at hitems
  rw [hempty, hhand, count_singleton, count_nil]
  omega

theorem enqueue {r : Nat} (henqueue : (s.ring i).enqueue r = some ring)
    (hheld : (s.pc t).hand = [r]) (hpool : u.pool = s.pool) (hring : u.ring = update s.ring i ring)
    (hpc : u.pc = update s.pc t .idle) : Conserved records u := by
  refine h.move hpc trivial fun x => ?_
  have hrest := atRest_ring hpool hring x
  rw [(Ring.enqueue_eq_some_iff.mp henqueue).2, count_append] at hrest
  rw [hheld]
  change atRest u x + 0 = _
  omega

theorem start {act : Act epolls} (hidle : s.pc t = .idle) (hstep : Records.start s t act = some u) :
    Conserved records u := by
  have hempty : (s.pc t).hand = [] := by rw [hidle]; rfl
  cases act with
  | post | clear =>
    cases hstep
    exact h.goto rfl rfl rfl trivial hempty.symm
  | shadow e info =>
    cases hstep
    exact h.goto rfl rfl rfl (Option.some_ne_none e) hempty.symm
  | take q e =>
    obtain ⟨⟨r, ring⟩, hdequeue, rfl⟩ := Option.map_eq_some_iff.mp hstep
    exact h.dequeue hdequeue hempty rfl rfl rfl trivial rfl
  | register n e events =>
    cases hstep
    exact ⟨h.once, h.placed⟩
  | create =>
    simp only [Records.start] at hstep
    split at hstep
    · cases hstep
    · cases hstep
      exact h.goto rfl rfl rfl trivial hempty.symm
  | go => cases hstep

theorem advance (hvalid : idxValid s (t, .go) = true)
    (hstep : Records.advance s t (s.pc t) = some u) : Conserved records u := by
  have hplaced := h.placed t
  cases hpc : s.pc t with
  | idle | astray =>
    rw [hpc] at hstep
    cases hstep
  | hasNode | read | clearEvents =>
    rw [hpc] at hstep
    cases hstep
    exact h.goto rfl rfl rfl trivial (by rw [hpc]; rfl)
  | hasIdx n info e =>
    rw [hpc] at hstep
    cases hstep
    refine h.goto rfl rfl rfl ?_ ?_
    · split
      · rename_i hevents
        rintro rfl
        simp [idxValid, hpc, hevents] at hvalid
      · trivial
    · rw [hpc]
      split <;> rfl
  | get job =>
    simp only [hpc, Records.advance] at hstep
    rw [hpc] at hplaced
    split at hstep
    · cases hstep
      exact h.goto rfl rfl rfl trivial (by rw [hpc]; rfl)
    · rename_i r rest hpool
      cases hstep
      refine h.move rfl hplaced fun x => ?_
      simp only [atRest, State.goto, hpool, hpc, Pc.hand, count_cons, count_nil]
      omega
  | fill r job =>
    rw [hpc] at hstep hplaced
    cases hstep
    exact h.goto rfl rfl rfl hplaced (by rw [hpc]; rfl)
  | enqueue r job =>
    simp only [hpc, Records.advance] at hstep
    rw [hpc] at hplaced
    split at hstep
    · exact absurd ‹_› hplaced
    · split at hstep
      · cases hstep
        exact h.goto rfl rfl rfl trivial (by rw [hpc]; rfl)
      · rename_i ring henqueue
        cases hstep
        exact h.enqueue henqueue (by rw [hpc]; rfl) rfl rfl rfl
  | put r loop =>
    rw [hpc] at hstep
    cases hstep
    refine h.move (p := loop.elim .idle fun i => .reset i.1 i.2) rfl ?_ fun x => ?_
    · cases loop <;> trivial
    · have hhand : (loop.elim Pc.idle fun i => .reset i.1 i.2).hand = [] := by cases loop <;> rfl
      rw [hhand, hpc]
      simp only [atRest, State.goto, Pc.hand, count_append, count_nil]
      omega
  | reset q e =>
    simp only [hpc, Records.advance] at hstep
    split at hstep
    · cases hstep
      refine h.goto rfl rfl rfl ?_ ?_
      · split <;> trivial
      · rw [hpc]
        split <;> rfl
    · rename_i r ring hdequeue
      cases hstep
      exact h.dequeue hdequeue (by rw [hpc]; rfl) rfl rfl rfl trivial rfl

theorem step {a : Fin threads × Act epolls} (hvalid : idxValid s a = true)
    (hstep : Records.step s a = some u) : Conserved records u := by
  obtain ⟨t, act⟩ := a
  unfold Records.step at hstep
  split at hstep
  · exact h.start ‹_› hstep
  · exact h.advance hvalid hstep
  · cases hstep

end

end Conserved

/-- As long as the stack finds no event asked for by a node that is being cleared, every record is
in one place, once. -/
theorem records_conserved {records : Nat}
    (hreach : (system epolls threads cap records).ReachableUnder (fun s a => idxValid s a = true) s)
    {r : Nat} (hr : r < records) :
    atRest s r + inHands s r = 1 ∧ ((∀ t, (s.pc t).hand = []) → atRest s r = 1) ∧
      ∀ t, r ∈ (s.pc t).hand → atRest s r = 0 := by
  have h : Conserved records s := hreach.invariant (fun _ => Conserved.of_start)
    fun _ _ _ h hvalid hstep => h.step hvalid hstep
  have honce := h.once r
  rw [if_pos hr] at honce
  refine ⟨honce, fun hquiet => ?_, fun t ht => ?_⟩
  · have hnone : inHands s r = 0 := Finset.sum_eq_zero fun t _ => by rw [hquiet t]; rfl
    omega
  · have hle : (s.pc t).hand.count r ≤ inHands s r :=
      Finset.single_le_sum (f := fun t => (s.pc t).hand.count r) (fun _ _ => Nat.zero_le _)
        (Finset.mem_univ t)
    have hpos := count_pos_iff.mpr ht
    omega

def created : State 1 2 1 where
  pool := [0, 1]
  info := fun _ => ⟨0, .epollin⟩
  ring := fun _ => Ring.empty
  epollRing := [0]
  epollIdx := fun _ => none
  epollEvents := fun _ _ => false
  pc := fun _ => .idle

theorem created_start : Start 2 created := ⟨rfl, fun _ => rfl, fun _ => rfl⟩

def posting : List (Fin 2 × Act 1) :=
  [(1, .create), (1, .go), (1, .go), (1, .register 7 0 fun _ => true), (0, .post 7 ⟨5, .epollin⟩)]

theorem records_conserved_full :
    ∃ s, (system 1 2 1 2).ReachableUnder (fun s a => idxValid s a = true) s ∧
      (s.ring (.ready, 0)).items = [0] ∧ s.pool = [] ∧
      atRest s 0 + inHands s 0 = 1 ∧ atRest s 1 + inHands s 1 = 1 := by
  obtain ⟨s, hreach, hring, hpool⟩ := (system 1 2 1 2).exists_reachableUnder
    (fun s a => idxValid s a = true) created
    (posting ++ [(0, .go), (0, .go), (0, .go), (0, .go), (0, .go), (0, .post 7 ⟨5, .epollin⟩),
      (0, .go), (0, .go), (0, .go), (0, .go), (0, .go), (1, .shadow 0 ⟨5, .epollin⟩), (1, .go)])
    (P := fun s => (s.ring (.ready, 0)).items = [0] ∧ s.pool = [])
    created_start (by decide +kernel)
  exact ⟨s, hreach, hring, hpool, (records_conserved hreach (by decide)).1,
    (records_conserved hreach (by decide)).1⟩

theorem record_lost_by_close :
    ∃ s, (system 1 2 1 2).Reachable s ∧ (∀ t, (s.pc t).hand = []) ∧ atRest s 0 = 0 :=
  (system 1 2 1 2).exists_reachable created
    (posting ++ [(1, .clear 7), (0, .go), (0, .go), (1, .go), (0, .go), (0, .go), (0, .go)])
    created_start (by decide +kernel)

end LightStack.Epoll.Records
