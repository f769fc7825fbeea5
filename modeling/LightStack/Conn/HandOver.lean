import LightStack.Lib.Transition
import LightStack.Lib.Mailbox

/-!
# The hand-over of an index on close

`_light_close` posts the `CLOSE` command first and resets the light socket afterwards.
-/

namespace LightStack.Conn.HandOver

open Lib Function

inductive Turn where
  | single
  | copy (i : Nat)
  deriving DecidableEq

inductive Pc where
  | readMulticore
  | loop (i : Nat)
  | post (turn : Turn) (c : Nat)
  | flushRx (turn : Turn) (c : Nat)
  | clearSignal (turn : Turn) (c : Nat)
  | initNonblock (turn : Turn) (c : Nat)
  | setNonblock (c : Nat)
  | setTimeout (turn : Turn) (c field : Nat)
  | unlinkNodes (turn : Turn) (c : Nat)
  | endTurn (turn : Turn) (c : Nat)
  | clearMulticore
  | returned
  deriving DecidableEq

structure State where
  numProcs : Nat
  main : Nat
  pc : Pc
  procId : Nat
  isInit : Nat → Bool
  isMulticore : Nat → Bool
  copies : Nat → Nat → Nat
  rxRing : Nat → List Nat
  epollNodes : Nat → List Nat
  pending : List (Nat × Nat)
  kernel : Nat → Bool
  free : List Nat
  given : List Nat

inductive Action where
  | closer (posted : Bool)
  | stack (k : Nat)
  | otherOpen
  | otherAccept (k : Nat)

def after : Turn → Pc
  | .single => .returned
  | .copy i => .loop (i + 1)

def target (s : State) : Turn → Nat
  | .single => s.procId
  | .copy i => i

def unlinks (s : State) : Turn → Bool
  | .single => true
  | .copy i => decide (i = s.procId)

def post (s : State) (turn : Turn) (c : Nat) (posted : Bool) : State :=
  if !s.isInit c then { s with free := s.free ++ [c], pc := after turn }
  else if posted then
    { s with pending := s.pending ++ [(target s turn, c)], pc := .flushRx turn c }
  else { s with pc := .returned }

def lightClose (s : State) (posted : Bool) : Option State :=
  match s.pc with
  | .readMulticore =>
    some { s with pc := if s.isMulticore s.main then .loop 0 else .post .single s.main }
  | .loop i =>
    some { s with
      pc := if i < s.numProcs then .post (.copy i) (s.copies s.main i) else .clearMulticore }
  | .post turn c => some (post s turn c posted)
  | .flushRx turn c =>
    match s.rxRing c with
    | [] => some { s with pc := .clearSignal turn c }
    | _ :: rest => some { s with rxRing := update s.rxRing c rest }
  | .clearSignal turn c => some { s with pc := .initNonblock turn c }
  | .initNonblock .single c => some { s with pc := .setNonblock c }
  | .initNonblock (.copy i) c => some { s with pc := .setTimeout (.copy i) c 0 }
  | .setNonblock c => some { s with pc := .setTimeout .single c 0 }
  | .setTimeout turn c field =>
    some { s with
      pc := if field < 3 then .setTimeout turn c (field + 1) else .unlinkNodes turn c }
  | .unlinkNodes turn c =>
    if unlinks s turn then
      match s.epollNodes c with
      | [] => some { s with pc := .endTurn turn c }
      | _ :: rest => some { s with epollNodes := update s.epollNodes c rest }
    else some { s with pc := .endTurn turn c }
  | .endTurn .single _ => some { s with procId := 0, pc := .returned }
  | .endTurn (.copy i) c => some { s with isInit := update s.isInit c false, pc := .loop (i + 1) }
  | .clearMulticore =>
    some { s with
      isMulticore := update s.isMulticore s.main false
      procId := 0
      pc := .returned }
  | .returned => none

def processClose (s : State) (c : Nat) : State :=
  if s.kernel c then
    { s with
      rxRing := update s.rxRing c []
      kernel := update s.kernel c false
      free := s.free ++ [c] }
  else s

def otherTakes (s : State) (f : Nat → State → State) : Option State :=
  match s.free with
  | [] => none
  | c :: rest => some (f c { s with free := rest, given := s.given ++ [c] })

def otherGetSocket (c : Nat) (s : State) : State :=
  { s with isMulticore := update s.isMulticore c false }

def otherAccept (k c : Nat) (s : State) : State :=
  { s with
    isMulticore := update s.isMulticore c false
    copies := update s.copies c (update (s.copies c) k c) }

def step (s : State) : Action → Option State
  | .closer posted => lightClose s posted
  | .stack k =>
    (Mailbox.take k s.pending).map fun taken => processClose { s with pending := taken.2 } taken.1
  | .otherOpen => otherTakes s otherGetSocket
  | .otherAccept k => otherTakes s (otherAccept k)

/-! ## Accesses -/

def accesses (s : State) : Option Nat :=
  match s.pc with
  | .readMulticore => some s.main
  | .loop i => if i < s.numProcs then some s.main else none
  | .post _ _ => none
  | .flushRx _ c => some c
  | .clearSignal _ c => some c
  | .initNonblock _ c => some c
  | .setNonblock c => some c
  | .setTimeout _ c _ => some c
  | .unlinkNodes turn c => if unlinks s turn then some c else none
  | .endTurn _ _ => none
  | .clearMulticore => some s.main
  | .returned => none

def current (s : State) : Option Nat :=
  match s.pc with
  | .readMulticore => some s.main
  | .loop _ => none
  | .post _ c => some c
  | .flushRx _ c => some c
  | .clearSignal _ c => some c
  | .initNonblock _ c => some c
  | .setNonblock c => some c
  | .setTimeout _ c _ => some c
  | .unlinkNodes _ c => some c
  | .endTurn _ _ => none
  | .clearMulticore => none
  | .returned => none

def turnsAfter : Turn → Option Nat
  | .single => none
  | .copy i => some (i + 1)

def turns (s : State) : Option Nat :=
  match s.pc with
  | .readMulticore => if s.isMulticore s.main then some 0 else none
  | .loop i => some i
  | .post turn _ => turnsAfter turn
  | .flushRx turn _ => turnsAfter turn
  | .clearSignal turn _ => turnsAfter turn
  | .initNonblock turn _ => turnsAfter turn
  | .setNonblock _ => none
  | .setTimeout turn _ _ => turnsAfter turn
  | .unlinkNodes turn _ => turnsAfter turn
  | .endTurn turn _ => turnsAfter turn
  | .clearMulticore => some s.numProcs
  | .returned => none

def LoopAccesses (s : State) (i c : Nat) : Prop :=
  c = s.main ∨ ∃ j < s.numProcs, i ≤ j ∧ s.copies s.main j = c

def Later (s : State) (c : Nat) : Prop := current s = some c ∨ ∃ i ∈ turns s, LoopAccesses s i c

instance (s : State) (i c : Nat) : Decidable (LoopAccesses s i c) :=
  inferInstanceAs (Decidable (_ ∨ _))

instance (s : State) (c : Nat) : Decidable (Later s c) := inferInstanceAs (Decidable (_ ∨ _))

def Exclusive (s : State) : Prop := ∀ c, accesses s = some c → c ∉ s.given

structure Start (s : State) : Prop where
  pc_eq : s.pc = .readMulticore
  given_eq : s.given = []
  held : ∀ c, Later s c → c ∉ s.free ∧ ∀ k, (k, c) ∉ s.pending

def system : TransitionSystem State Action where
  init := Start
  step := step

def returns (s : State) : Option (Nat × Nat) :=
  match s.pc with
  | .post (.copy i) c => if s.isInit c then none else some (i, c)
  | _ => none

def Orderly (s : State) : Action → Prop
  | .closer _ => ∀ x ∈ returns s, ¬LoopAccesses s (x.1 + 1) x.2
  | .stack k => ∀ taken ∈ Mailbox.take k s.pending, ¬Later s taken.1
  | .otherOpen => True
  | .otherAccept _ => True

instance (s : State) (a : Action) : Decidable (Orderly s a) := by
  cases a <;> dsimp only [Orderly] <;> infer_instance

/-! ## Exclusive access -/

theorem later_of_accesses {s : State} {c : Nat} (h : accesses s = some c) : Later s c := by
  unfold accesses at h
  unfold Later current turns
  cases hpc : s.pc with
  | loop i =>
    simp only [hpc] at h
    split at h
    · cases h
      exact .inr ⟨i, rfl, .inl rfl⟩
    · cases h
  | clearMulticore =>
    simp only [hpc, Option.some.injEq] at h
    exact .inr ⟨_, rfl, .inl h.symm⟩
  | unlinkNodes turn c' =>
    simp only [hpc] at h
    split at h
    · exact .inl h
    · cases h
  | post | endTurn | returned =>
    simp only [hpc] at h
    cases h
  | readMulticore | flushRx | clearSignal | initNonblock | setNonblock | setTimeout =>
    simp only [hpc] at h
    exact .inl h

def Released (s : State) : Prop := ∀ c, c ∈ s.free ∨ c ∈ s.given → ¬Later s c

theorem exclusive_of_released {s : State} (h : Released s) : Exclusive s :=
  fun c haccess hgiven => h c (.inr hgiven) (later_of_accesses haccess)

variable {i c' : Nat} {posted : Bool}

section Closer

variable {s t : State} {c : Nat}

theorem LoopAccesses.mono {j : Nat} (hij : i ≤ j) (h : LoopAccesses s j c) : LoopAccesses s i c :=
  h.imp_right fun ⟨k, hk, hjk, heq⟩ => ⟨k, hk, Nat.le_trans hij hjk, heq⟩

theorem loopAccesses_copy (hi : i < s.numProcs) : LoopAccesses s i (s.copies s.main i) :=
  .inr ⟨i, hi, Nat.le_refl i, rfl⟩

theorem loopAccesses_congr (hmain : t.main = s.main) (hprocs : t.numProcs = s.numProcs)
    (hcopies : t.copies s.main = s.copies s.main) : LoopAccesses t i c ↔ LoopAccesses s i c := by
  simp only [LoopAccesses, hmain, hprocs, hcopies]

theorem LoopAccesses.eq_main (h : LoopAccesses s s.numProcs c) : c = s.main := by
  rcases h with hmain | ⟨j, hj, hle, -⟩
  · exact hmain
  · omega

theorem later_of_shrinks (hlater : Later t c) (hmain : t.main = s.main)
    (hprocs : t.numProcs = s.numProcs) (hcopies : t.copies = s.copies)
    (hcurrent : current t = current s ∨ current t = none) (hturns : turns t = turns s) :
    Later s c := by
  rcases hlater with hnow | ⟨i, hi, hloop⟩
  · rcases hcurrent with heq | heq
    · exact .inl (heq ▸ hnow)
    · rw [heq] at hnow
      cases hnow
  · exact .inr ⟨i, hturns ▸ hi, (loopAccesses_congr hmain hprocs (by rw [hcopies])).mp hloop⟩

theorem not_later_of_returned (hpc : t.pc = .returned) : ¬Later t c := by
  simp [Later, current, turns, hpc]

theorem later_of_post {turn : Turn} (hpc : s.pc = .post turn c')
    (hlater : Later (post s turn c' posted) c) : Later s c := by
  unfold post at hlater
  split at hlater
  · exact later_of_shrinks hlater rfl rfl rfl (.inr (by cases turn <;> rfl))
      (by cases turn <;> simp [turns, hpc, after, turnsAfter])
  · split at hlater
    · exact later_of_shrinks hlater rfl rfl rfl (.inl (by simp [current, hpc]))
        (by simp [turns, hpc])
    · exact absurd hlater (not_later_of_returned rfl)

theorem later_of_lightClose (hstep : lightClose s posted = some t)
    (hlater : Later t c) : Later s c := by
  unfold lightClose at hstep
  cases hpc : s.pc with
  | readMulticore =>
    simp only [hpc, Option.some.injEq] at hstep
    subst hstep
    by_cases hmulti : s.isMulticore s.main = true
    · exact later_of_shrinks hlater rfl rfl rfl (.inr (by simp [current, hmulti]))
        (by simp [turns, hpc, hmulti])
    · exact later_of_shrinks hlater rfl rfl rfl (.inl (by simp [current, hpc, hmulti]))
        (by simp [turns, hpc, hmulti, turnsAfter])
  | loop i =>
    simp only [hpc, Option.some.injEq] at hstep
    subst hstep
    refine .inr ⟨i, by simp [turns, hpc], ?_⟩
    split at hlater
    · rename_i hi
      rcases hlater with hnow | ⟨j, hj, hrest⟩
      · cases hnow
        exact loopAccesses_copy hi
      · cases hj
        exact LoopAccesses.mono (Nat.le_succ i) hrest
    · rcases hlater with hnow | ⟨j, hj, hrest⟩
      · cases hnow
      · cases hj
        exact .inl (LoopAccesses.eq_main hrest)
  | post turn c' =>
    simp only [hpc, Option.some.injEq] at hstep
    subst hstep
    exact later_of_post hpc hlater
  | flushRx turn c' =>
    simp only [hpc] at hstep
    split at hstep <;> cases hstep <;>
      exact later_of_shrinks hlater rfl rfl rfl (.inl (by simp [current, hpc]))
        (by simp [turns, hpc])
  | clearSignal turn c' =>
    simp only [hpc, Option.some.injEq] at hstep
    subst hstep
    exact later_of_shrinks hlater rfl rfl rfl (.inl (by simp [current, hpc])) (by simp [turns, hpc])
  | initNonblock turn c' =>
    cases turn <;> simp only [hpc, Option.some.injEq] at hstep <;> subst hstep <;>
      exact later_of_shrinks hlater rfl rfl rfl (.inl (by simp [current, hpc]))
        (by simp [turns, hpc, turnsAfter])
  | setNonblock c' =>
    simp only [hpc, Option.some.injEq] at hstep
    subst hstep
    exact later_of_shrinks hlater rfl rfl rfl (.inl (by simp [current, hpc]))
      (by simp [turns, hpc, turnsAfter])
  | setTimeout turn c' field =>
    simp only [hpc, Option.some.injEq] at hstep
    subst hstep
    refine later_of_shrinks hlater rfl rfl rfl (.inl ?_) ?_
    · by_cases hfield : field < 3 <;> simp [current, hpc, hfield]
    · by_cases hfield : field < 3 <;> simp [turns, hpc, hfield]
  | unlinkNodes turn c' =>
    simp only [hpc] at hstep
    split at hstep
    · split at hstep <;> cases hstep
      · exact later_of_shrinks hlater rfl rfl rfl (.inr (by simp [current])) (by simp [turns, hpc])
      · exact later_of_shrinks hlater rfl rfl rfl (.inl (by simp [current, hpc]))
          (by simp [turns, hpc])
    · cases hstep
      exact later_of_shrinks hlater rfl rfl rfl (.inr (by simp [current])) (by simp [turns, hpc])
  | endTurn turn c' =>
    cases turn with
    | single =>
      simp only [hpc, Option.some.injEq] at hstep
      subst hstep
      exact absurd hlater (not_later_of_returned rfl)
    | copy i =>
      simp only [hpc, Option.some.injEq] at hstep
      subst hstep
      exact later_of_shrinks hlater rfl rfl rfl (.inr rfl) (by simp [turns, hpc, turnsAfter])
  | clearMulticore =>
    simp only [hpc, Option.some.injEq] at hstep
    subst hstep
    exact absurd hlater (not_later_of_returned rfl)
  | returned => simp [hpc] at hstep

theorem free_of_lightClose (hstep : lightClose s posted = some t) :
    t.given = s.given ∧ (t.free = s.free ∨
      ∃ turn c', s.pc = .post turn c' ∧ s.isInit c' = false ∧
        t = { s with free := s.free ++ [c'], pc := after turn }) := by
  unfold lightClose at hstep
  split at hstep
  case h_3 turn c' hpc =>
    cases hstep
    unfold post
    split
    · rename_i hinit
      exact ⟨rfl, .inr ⟨turn, c', hpc, by simpa using hinit, rfl⟩⟩
    · split
      · exact ⟨rfl, .inl rfl⟩
      · exact ⟨rfl, .inl rfl⟩
  case h_4 => split at hstep <;> cases hstep <;> exact ⟨rfl, .inl rfl⟩
  case h_10 =>
    split at hstep
    · split at hstep <;> cases hstep <;> exact ⟨rfl, .inl rfl⟩
    · cases hstep
      exact ⟨rfl, .inl rfl⟩
  case h_14 => cases hstep
  all_goals
    cases hstep
    exact ⟨rfl, .inl rfl⟩

theorem not_later_of_returns {turn : Turn} (hguard : Orderly s (.closer posted))
    (hpc : s.pc = .post turn c')
    (hinit : s.isInit c' = false) :
    ¬Later { s with free := s.free ++ [c'], pc := after turn } c' := by
  cases turn with
  | single => exact not_later_of_returned rfl
  | copy i =>
    have hnot : ¬LoopAccesses s (i + 1) c' := hguard (i, c') (by simp [returns, hpc, hinit])
    rintro (hnow | ⟨j, hj, hloop⟩)
    · cases hnow
    · cases hj
      exact hnot hloop

theorem Released.closer (h : Released s) (hguard : Orderly s (.closer posted))
    (hstep : lightClose s posted = some t) : Released t := by
  obtain ⟨hgiven, hfree | ⟨turn, c', hpc, hinit, rfl⟩⟩ := free_of_lightClose hstep
  · intro c hc hlater
    rw [hgiven, hfree] at hc
    exact h c hc (later_of_lightClose hstep hlater)
  · intro c hc hlater
    by_cases hne : c = c'
    · subst hne
      exact not_later_of_returns hguard hpc hinit hlater
    · have hold : c ∈ s.free ∨ c ∈ s.given := by simpa [hne] using hc
      exact h c hold (later_of_lightClose hstep hlater)

end Closer

section Others

variable {s t : State}

theorem Released.stack {k : Nat} (h : Released s) (hguard : Orderly s (.stack k))
    (hstep : step s (.stack k) = some t) : Released t := by
  obtain ⟨⟨c', rest⟩, htake, rfl⟩ := Option.map_eq_some_iff.mp hstep
  have hnot : ¬Later s c' := hguard _ htake
  unfold processClose
  split
  · intro c hc hlater
    have hold : c ∈ s.free ∨ c ∈ s.given ∨ c = c' := by
      simpa [or_assoc, or_comm, or_left_comm] using hc
    rcases hold with hc | hc | rfl
    · exact h c (.inl hc) hlater
    · exact h c (.inr hc) hlater
    · exact hnot hlater
  · exact h

structure Writes (c : Nat) (s t : State) : Prop where
  pc : t.pc = s.pc
  main : t.main = s.main
  numProcs : t.numProcs = s.numProcs
  free : t.free = s.free
  given : t.given = s.given
  isMulticore : ∀ x, x ≠ c → t.isMulticore x = s.isMulticore x
  copies : ∀ x, x ≠ c → t.copies x = s.copies x

theorem otherGetSocket_writes (c : Nat) (s : State) : Writes c s (otherGetSocket c s) where
  pc := rfl
  main := rfl
  numProcs := rfl
  free := rfl
  given := rfl
  isMulticore := fun x hx => by simp [otherGetSocket, hx]
  copies := fun _ _ => rfl

theorem otherAccept_writes (k c : Nat) (s : State) : Writes c s (otherAccept k c s) where
  pc := rfl
  main := rfl
  numProcs := rfl
  free := rfl
  given := rfl
  isMulticore := fun x hx => by simp [otherAccept, hx]
  copies := fun x hx => by simp [otherAccept, hx]

theorem Writes.later {c : Nat} (hwrites : Writes c' s t) (hnot : ¬Later s c')
    (hlater : Later t c) : Later s c := by
  have hcurrent : current t = current s := by simp only [current, hwrites.pc, hwrites.main]
  rcases hlater with hnow | ⟨i, hi, hloop⟩
  · exact .inl (hcurrent ▸ hnow)
  · by_cases hne : s.main = c'
    · -- Then the call is not in its loop: there the listener is always accessed.
      subst hne
      have hstart : s.pc ≠ .readMulticore := fun hpc => hnot (.inl (by simp [current, hpc]))
      have hturns : turns t = turns s := by
        unfold turns
        rw [hwrites.pc, hwrites.numProcs]
        split
        · exact absurd ‹_› hstart
        all_goals rfl
      exact absurd (.inr ⟨i, hturns ▸ hi, .inl rfl⟩) hnot
    · have hturns : turns t = turns s := by
        simp only [turns, hwrites.pc, hwrites.main, hwrites.numProcs,
          hwrites.isMulticore s.main hne]
      exact .inr ⟨i, hturns ▸ hi,
        (loopAccesses_congr hwrites.main hwrites.numProcs (hwrites.copies s.main hne)).mp hloop⟩

theorem Released.otherTakes {f : Nat → State → State} (h : Released s)
    (hf : ∀ c u, Writes c u (f c u)) (hstep : otherTakes s f = some t) : Released t := by
  unfold HandOver.otherTakes at hstep
  split at hstep
  · cases hstep
  · rename_i c' rest hfree
    cases hstep
    have hwrites := hf c' { s with free := rest, given := s.given ++ [c'] }
    have hnot : ¬Later s c' := h c' (.inl (by simp [hfree]))
    intro c hc hlater
    have hold : c ∈ s.free ∨ c ∈ s.given := by
      rw [hwrites.free, hwrites.given] at hc
      rw [hfree]
      simp only [List.mem_append, List.mem_cons, List.not_mem_nil, or_false] at hc ⊢
      tauto
    exact h c hold (hwrites.later hnot hlater)

end Others

theorem Released.step {s t : State} {a : Action} (h : Released s) (hguard : Orderly s a)
    (hstep : system.step s a = some t) : Released t := by
  cases a with
  | closer posted => exact h.closer hguard hstep
  | stack k => exact h.stack hguard hstep
  | otherOpen => exact h.otherTakes otherGetSocket_writes hstep
  | otherAccept k => exact h.otherTakes (otherAccept_writes k) hstep

theorem Start.released {s : State} (h : Start s) : Released s := by
  intro c hc hlater
  rcases hc with hfree | hgiven
  · exact (h.held c hlater).1 hfree
  · simp [h.given_eq] at hgiven

/-- If the stack comes to a `CLOSE` command only when the closing call is through, the call accesses
no index that another application has got. -/
theorem close_exclusive {s : State} (hreach : system.ReachableUnder Orderly s) : Exclusive s := by
  have hreleased : Released s := by
    refine TransitionSystem.ReachableUnder.invariant ?_ ?_ hreach
    · intro u hstart
      exact Start.released hstart
    · intro u a v h hguard hstep
      exact h.step hguard hstep
  exact exclusive_of_released hreleased

def startWith (numProcs : Nat) (multicore : Bool) : State where
  numProcs := numProcs
  main := 0
  pc := .readMulticore
  procId := 0
  isInit := fun _ => true
  isMulticore := fun _ => multicore
  copies := fun _ i => i
  rxRing := fun _ => []
  epollNodes := fun _ => []
  pending := []
  kernel := fun _ => true
  free := []
  given := []

theorem start_startWith (numProcs : Nat) (multicore : Bool) :
    Start (startWith numProcs multicore) where
  pc_eq := rfl
  given_eq := rfl
  held := by simp [startWith]

theorem close_exclusive_listener :
    ∃ s, system.ReachableUnder Orderly s ∧ s.given = [1] ∧ accesses s = some 0 ∧
      Exclusive s := by
  obtain ⟨s, hreach, hgiven, haccess⟩ :=
    system.exists_reachableUnder Orderly (startWith 2 true)
      (List.replicate 24 (.closer true) ++ [Action.stack 1, .otherAccept 0])
      (P := fun s => s.given = [1] ∧ accesses s = some 0)
      (start_startWith 2 true) (by decide +kernel)
  exact ⟨s, hreach, hgiven, haccess, close_exclusive hreach⟩

theorem close_flushes_ring_of_next_owner : ¬∀ s, system.Reachable s → Exclusive s := by
  intro hall
  obtain ⟨s, hreach, hpc, hgiven⟩ :=
    system.exists_reachable (startWith 1 false)
      [.closer true, .closer true, .stack 0, .otherOpen]
      (P := fun s => s.pc = .flushRx .single 0 ∧ s.given = [0])
      (start_startWith 1 false) (by decide +kernel)
  exact hall s hreach 0 (by simp [accesses, hpc]) (by simp [hgiven])

end LightStack.Conn.HandOver
