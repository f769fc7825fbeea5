import LightStack.Cmd.Model

/-!
# Conservation of command buffers

`Accounted s held` says that the buffer in hand is nowhere and every other one in exactly one place.
-/

namespace LightStack.Cmd

open Lib List

structure Accounted (s : State) (held : Option Buf) : Prop where
  created : ∀ b, held = some b → Created s b
  place : ∀ b, whereabouts s b = if Created s b ∧ held ≠ some b then [b.home] else []

namespace Accounted

variable {s t : State} {k c : Nat} {b : Buf} {cmd : Command}

theorem leave (h : Accounted s none) (hnum : t.numProcs = s.numProcs)
    (hplace : (whereabouts s b).Perm (k :: whereabouts t b))
    (hother : ∀ b', b' ≠ b → whereabouts t b' = whereabouts s b') :
    k = b.home ∧ Accounted t (some b) := by
  have hcreated : ∀ b', Created t b' ↔ Created s b' := by simp [Created, hnum]
  have hb : Created s b := by
    by_contra hnot
    rw [h.place b, if_neg (by simp [hnot])] at hplace
    exact cons_ne_nil _ _ hplace.nil_eq.symm
  rw [h.place b, if_pos ⟨hb, by simp⟩] at hplace
  obtain ⟨rfl, hnil⟩ := List.cons.inj hplace.symm.eq_singleton
  refine ⟨rfl, ?_, fun b' => ?_⟩
  · rintro b' ⟨⟩
    exact (hcreated b).mpr hb
  · by_cases hb' : b' = b
    · rw [hb', hnil, if_neg (by simp)]
    · rw [hother b' hb', h.place b']
      simp [hcreated, Ne.symm hb']

theorem arrive (h : Accounted s (some b)) (hnum : t.numProcs = s.numProcs)
    (hplace : (whereabouts t b).Perm (b.home :: whereabouts s b))
    (hother : ∀ b', b' ≠ b → whereabouts t b' = whereabouts s b') : Accounted t none := by
  have hcreated : ∀ b', Created t b' ↔ Created s b' := by simp [Created, hnum]
  refine ⟨by simp, fun b' => ?_⟩
  by_cases hb' : b' = b
  · rw [h.place b, if_neg (by simp)] at hplace
    rw [hb', hplace.eq_singleton, if_pos ⟨(hcreated b).mpr (h.created b rfl), by simp⟩]
  · rw [hother b' hb', h.place b']
    simp [hcreated, Ne.symm hb']

/-! ### Pools and rings -/

theorem getFreeCommandBuf (h : Accounted s none)
    (hget : getFreeCommandBuf s k b = some t) : k = b.home ∧ Accounted t (some b) := by
  obtain ⟨hmem, rfl⟩ := of_guard hget
  refine h.leave rfl ?_ fun b' hb' => ?_
  · simp only [whereabouts, Function.update_self]
    exact ((perm_cons_erase hmem).append_right _).append_right _
  · simp [whereabouts, hb']

theorem freeCommandBuf (h : Accounted s (some b)) : Accounted (freeCommandBuf s b.home b) none := by
  refine h.arrive rfl ?_ fun b' hb' => ?_
  · simp [whereabouts, Cmd.freeCommandBuf]
  · simp [whereabouts, Cmd.freeCommandBuf, hb']

theorem enqueueCommandBuf (h : Accounted s (some b))
    (henqueue : enqueueCommandBuf s b.home b cmd = some t) : Accounted t none := by
  obtain ⟨-, ⟨⟩⟩ := Option.ite_none_left_eq_some.mp henqueue
  refine h.arrive rfl ?_ fun b' hb' => ?_
  · simp only [whereabouts, filter_append, map_append, append_assoc]
    simp only [filter_cons, filter_nil, decide_true, if_true, map_cons,
      map_nil, singleton_append]
    rw [← append_assoc, ← append_assoc]
    exact perm_middle
  · simp [whereabouts, Ne.symm hb']

theorem submit (h : Accounted s (some b)) : Accounted (submit s b.home b cmd) none := by
  unfold Cmd.submit
  cases henqueue : Cmd.enqueueCommandBuf s b.home b cmd with
  | none => exact h.freeCommandBuf
  | some u => exact h.enqueueCommandBuf henqueue

theorem dequeueCommandBuf (h : Accounted s none) {rest : List (Nat × Buf × Command)}
    (htake : Mailbox.take k s.ring = some ((b, cmd), rest)) :
    k = b.home ∧ Accounted { s with ring := rest } (some b) := by
  have hring := Mailbox.take_perm htake
  refine h.leave rfl ?_ fun b' hb' => ?_
  · have hmine := (hring.filter fun x => decide (x.2.1 = b)).map Prod.fst
    rw [filter_cons_of_pos (by simp), map_cons] at hmine
    exact ((hmine.append_left _).trans perm_middle).append_right _
  · have hmine := Mailbox.filter_of_take_neg (p := fun x => decide (x.2.1 = b')) htake
      (by simp [Ne.symm hb'])
    simp only [whereabouts, hmine]

theorem dequeueAccepted (h : Accounted s none) {rest : List (Nat × Buf)}
    (htake : Mailbox.take c s.accepted = some (b, rest)) :
    Accounted { s with accepted := rest } (some b) := by
  have hring := Mailbox.take_perm htake
  refine (h.leave (t := { s with accepted := rest }) (k := b.home) rfl ?_ fun b' hb' => ?_).2
  · have hmine := (hring.filter fun x => decide (x.2 = b)).map fun _ => b.home
    rw [filter_cons_of_pos (by simp), map_cons] at hmine
    exact (hmine.append_left _).trans perm_middle
  · have hmine := Mailbox.filter_of_take_neg (p := fun x => decide (x.2 = b')) htake
      (by simp [Ne.symm hb'])
    simp only [whereabouts, hmine]

theorem enqueueAccepted (h : Accounted s (some b)) :
    Accounted { s with accepted := s.accepted ++ [(c, b)] } none := by
  refine h.arrive rfl ?_ fun b' hb' => ?_
  · have hone : [(c, b)].filter (fun x => decide (x.2 = b)) = [(c, b)] := by simp
    simp only [whereabouts, filter_append, map_append, ← append_assoc, hone]
    exact perm_append_singleton ..
  · simp [whereabouts, Ne.symm hb']

theorem flushRx_of_noneWaits (hnone : noneWaits s c = true) : flushRx s c = s := by
  have hall : ∀ x ∈ s.accepted, decide (x.1 ≠ c) = true := all_eq_true.mp hnone
  simp only [flushRx, filter_eq_self.mpr hall]

/-! ### Calls and stack processes -/

section

variable (h : Accounted s none)

include h

theorem post (hpost : post s k b cmd = some t) : Accounted t none := by
  obtain ⟨u, hget, rfl⟩ := Option.map_eq_some_iff.mp hpost
  obtain ⟨rfl, hheld⟩ := h.getFreeCommandBuf hget
  exact hheld.submit

theorem postWithRes {res : Bool} (hpost : postWithRes s k b cmd res = some t) :
    Accounted t none := by
  obtain ⟨u, hget, rfl⟩ := Option.map_eq_some_iff.mp hpost
  obtain ⟨rfl, hheld⟩ := h.getFreeCommandBuf hget
  cases res with
  | true => exact hheld.submit
  | false => exact hheld.freeCommandBuf

theorem dequeueRxBufKick (hroom : full s k = false) (hstep : lightDequeueRxBufKick s k b = some t) :
    Accounted t none := by
  obtain ⟨u, hget, rfl⟩ := Option.map_eq_some_iff.mp hstep
  obtain ⟨rfl, hheld⟩ := h.getFreeCommandBuf hget
  have hring : u.ring = s.ring := by
    obtain ⟨-, rfl⟩ := of_guard hget
    rfl
  have henqueue : Cmd.enqueueCommandBuf u b.home b .rxKick =
      some { u with ring := u.ring ++ [(b.home, b, .rxKick)] } := by
    rw [Cmd.enqueueCommandBuf, if_neg]
    simpa [full, hring] using hroom
  rw [henqueue]
  exact hheld.enqueueCommandBuf henqueue

theorem call {a : Call} (hreturning : Returning s (.call k b a)) (hcall : call s k b a = some t) :
    Accounted t none := by
  cases a with
  | dequeueRxBufKick => exact h.dequeueRxBufKick hreturning hcall
  | socketInit | bind => exact h.postWithRes hcall
  | _ => exact h.post hcall

theorem accept {connection : Bool} (hreturning : Returning s (.accept c k connection))
    (haccept : lightAccept s c k connection = some t) : Accounted t none := by
  obtain ⟨⟨b, rest⟩, htake, rfl⟩ := Option.map_eq_some_iff.mp haccept
  have hhome : b.home = k := hreturning _ htake
  subst hhome
  exact (h.dequeueAccepted htake).submit

theorem connects {room : Bool} (hstep : userOnAccept s k b c room = some t) : Accounted t none := by
  obtain ⟨u, hget, rfl⟩ := Option.map_eq_some_iff.mp hstep
  obtain ⟨rfl, hheld⟩ := h.getFreeCommandBuf hget
  cases room with
  | true => exact hheld.enqueueAccepted
  | false => exact hheld.freeCommandBuf

end

theorem processCommand_of_completes {opened : Bool} {found : Found}
    (hcompletes : Completes s opened found cmd) :
    processCommand s k b opened found cmd = Cmd.freeCommandBuf s k b := by
  cases cmd with
  | epollCreate => exact if_pos hcompletes
  | epollClose => exact hcompletes.elim
  | listen | txKick | rxKick => exact if_neg hcompletes
  | close c =>
    rcases hcompletes with hfound | hnone
    · simp only [processCommand, if_pos hfound]
    · simp only [processCommand, flushRx_of_noneWaits hnone, ite_self]
  | shutdown c how =>
    rcases hcompletes with hfound | ⟨hboth, hread⟩
    · simp only [processCommand, if_pos hfound]
    · by_cases hhow : how = 0
      · simp only [processCommand, if_pos hhow, flushRx_of_noneWaits (hread hhow), ite_self]
      · simp only [processCommand, if_neg hhow, if_neg hboth, ite_self]
  | _ => rfl

theorem process (h : Accounted s none) {opened : Bool} {found : Found}
    (hreturning : Returning s (.stack k opened found))
    (hstep : process s k opened found = some t) : Accounted t none := by
  obtain ⟨⟨⟨b, cmd⟩, rest⟩, htake, rfl⟩ := Option.map_eq_some_iff.mp hstep
  have hcompletes : Completes s opened found cmd := hreturning _ htake
  obtain ⟨rfl, hheld⟩ := h.dequeueCommandBuf htake
  have hsame : Completes { s with ring := rest } opened found cmd := by
    cases cmd <;> exact hcompletes
  dsimp only
  rw [processCommand_of_completes hsame]
  exact hheld.freeCommandBuf

theorem step (h : Accounted s none) {a : Action} (hreturning : Returning s a)
    (hstep : system.step s a = some t) : Accounted t none := by
  cases a with
  | call k b a => exact h.call hreturning hstep
  | dequeueRxBuf c =>
    obtain ⟨⟨b, rest⟩, htake, -⟩ := Option.map_eq_some_iff.mp hstep
    have hne := all_eq_true.mp hreturning _ (Mailbox.mem_of_take htake)
    simp at hne
  | flushRx c =>
    cases hstep
    rwa [flushRx_of_noneWaits hreturning]
  | accept c k connection => exact h.accept hreturning hstep
  | connects k b c room => exact h.connects hstep
  | stack k opened found => exact h.process hreturning hstep

theorem start (hstart : Start s) : Accounted s none where
  created := by simp
  place := by
    intro b
    simp [whereabouts, hstart.pools_eq, hstart.ring_eq, hstart.accepted_eq]

end Accounted

/-- In every run of `Returning` steps, every buffer is in exactly one place, of its own process. -/
theorem command_buffers_conserved {s : State} (hreach : system.ReachableUnder Returning s)
    (b : Buf) (hcreated : Created s b) :
    whereabouts s b = [b.home] ∧
      (s.ring = [] → s.accepted = [] → s.pools b = [b.home]) := by
  have haccounted : Accounted s none := by
    refine @TransitionSystem.ReachableUnder.invariant _ _ system Returning
      (fun u => Accounted u none) ?_ ?_ s hreach
    · intro u hstart
      exact Accounted.start hstart
    · intro u a v h hreturning hstep
      exact h.step hreturning hstep
  have hplace : whereabouts s b = [b.home] := by rw [haccounted.place b, if_pos ⟨hcreated, by simp⟩]
  refine ⟨hplace, fun hring haccepted => ?_⟩
  simpa [whereabouts, hring, haccepted] using hplace

def startWith (n : Nat) : State where
  numProcs := n
  pools := fun b => if b.home < n ∧ b.number < commandPoolSize then [b.home] else []
  ring := []
  accepted := []

theorem start_startWith (n : Nat) : Start (startWith n) where
  pools_eq := fun _ => rfl
  ring_eq := rfl
  accepted_eq := rfl

theorem command_buffers_conserved_listener :
    ∃ s, system.ReachableUnder Returning s ∧ s.ring.length = 1 ∧ Created s ⟨1, 5⟩ ∧
      whereabouts s ⟨1, 5⟩ = [1] := by
  obtain ⟨s, hreach, hring, hcreated⟩ :=
    system.exists_reachableUnder Returning (startWith 2)
      [.call 1 ⟨1, 0⟩ (.socketInit true), .stack 1 true .noSocket, .call 1 ⟨1, 0⟩ (.bind false),
        .call 1 ⟨1, 7⟩ (.bind true), .call 1 ⟨1, 9⟩ .listen, .stack 1 true .other,
        .stack 1 true .other, .connects 1 ⟨1, 5⟩ 0 true, .connects 1 ⟨1, 6⟩ 0 true,
        .accept 0 1 true, .accept 0 1 false, .stack 1 true .other, .stack 1 true .other,
        .flushRx 0, .call 1 ⟨1, 5⟩ (.close 0)]
      (P := fun s => s.ring.length = 1 ∧ Created s ⟨1, 5⟩)
      (start_startWith 2) (by decide +kernel)
  exact ⟨s, hreach, hring, hcreated, (command_buffers_conserved hreach ⟨1, 5⟩ hcreated).1⟩

theorem command_buffer_lost :
    (∃ s, system.Reachable s ∧ s.ring = [] ∧ s.accepted = [] ∧ Created s ⟨0, 0⟩ ∧
      whereabouts s ⟨0, 0⟩ = []) ∧
    ∃ s, system.Reachable s ∧ s.ring = [] ∧ s.accepted = [] ∧ Created s ⟨0, 1⟩ ∧
      whereabouts s ⟨0, 1⟩ = [] := by
  constructor
  · exact system.exists_reachable (startWith 1)
      [.call 0 ⟨0, 0⟩ .epollClose, .stack 0 true .noSocket] (start_startWith 1) (by decide +kernel)
  · exact system.exists_reachable (startWith 1)
      [.call 0 ⟨0, 0⟩ (.socketInit true), .stack 0 true .noSocket, .call 0 ⟨0, 0⟩ (.bind true),
        .stack 0 true .other, .call 0 ⟨0, 0⟩ .listen, .stack 0 true .other,
        .connects 0 ⟨0, 1⟩ 0 true, .call 0 ⟨0, 0⟩ (.close 0), .stack 0 true .listener]
      (start_startWith 1) (by decide +kernel)

end LightStack.Cmd
