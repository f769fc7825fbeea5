import LightStack.Tx.Kick.Model

/-!
# Lost-kick freedom
-/

namespace LightStack.Tx.Kick

open Lib Function

variable {cfg : Config}

structure Covered (s : State cfg) : Prop where
  flag : FlagCovered s
  unseen : UnseenCovered s

/-! ## Steps that leave the kick protocol alone -/

structure SameKicks (s s' : State cfg) : Prop where
  writeDone : s'.writeDone = s.writeDone
  batch : s'.batch = s.batch
  ring : s'.ring = s.ring
  stack : s'.stack = s.stack
  sender : s'.sender = s.sender
  unseen : ∀ idx, s'.unseen idx = true → s.unseen idx = true

theorem SameKicks.refl (s : State cfg) : SameKicks s s := ⟨rfl, rfl, rfl, rfl, rfl, fun _ h => h⟩

variable {s s' : State cfg} {idx : Idx} {c : Cmd} {t : Thread}

theorem SameKicks.kickPending (h : SameKicks s s') : KickPending s' idx ↔ KickPending s idx := by
  unfold KickPending KickQueued
  rw [h.batch, h.ring, h.stack, h.sender]

theorem SameKicks.covered (h : SameKicks s s') (hs : Covered s) : Covered s' := by
  constructor
  · intro idx hflag
    rw [h.writeDone] at hflag
    exact h.kickPending.mpr (hs.flag idx hflag)
  · intro idx hunseen
    unfold WillBeCounted
    rw [h.writeDone, h.sender, h.stack]
    exact hs.unseen idx (h.unseen idx hunseen)

theorem freeCommand_sameKicks (s : State cfg) : SameKicks s (freeCommand s) := by
  unfold freeCommand
  split
  · exact ⟨rfl, rfl, rfl, rfl, rfl, fun _ h => h⟩
  · exact .refl s

theorem userFlushTx_sameKicks (s : State cfg) (a : Addr) : SameKicks s (userFlushTx s a) := by
  unfold userFlushTx
  split
  · exact .refl s
  · rename_i idx _
    refine ⟨rfl, rfl, rfl, rfl, rfl, ?_⟩
    intro j hj
    by_cases hji : j = idx
    · simp [hji] at hj
    · simpa [hji] using hj

theorem closeSocket_sameKicks (s : State cfg) (idx : Idx) (a : Addr) :
    SameKicks s (closeSocket s idx a) := by
  have hflush := userFlushTx_sameKicks s a
  exact ⟨hflush.writeDone, hflush.batch, hflush.ring, hflush.stack, hflush.sender, hflush.unseen⟩

theorem processCommand_sameKicks (s : State cfg) (created : Option (Addr × SockType)) (ok : Bool)
    (hc : ∀ idx, c ≠ .txKick idx) : SameKicks s (processCommand s created ok c) := by
  cases c with
  | openSocket idx =>
    cases created with
    | none => exact .refl s
    | some x => exact ⟨rfl, rfl, rfl, rfl, rfl, fun _ h => h⟩
  | setSocketRing idx a => exact ⟨rfl, rfl, rfl, rfl, rfl, fun _ h => h⟩
  | listenSocket idx =>
    simp only [processCommand]
    split
    · exact .refl s
    · exact ⟨rfl, rfl, rfl, rfl, rfl, fun _ h => h⟩
  | close idx =>
    simp only [processCommand]
    split
    · exact .refl s
    · exact closeSocket_sameKicks s idx _
  | shutdown idx how =>
    simp only [processCommand]
    split
    · exact .refl s
    · rename_i a _
      split
      · exact userFlushTx_sameKicks s a
      · split
        · have hclose := closeSocket_sameKicks s idx a
          exact ⟨hclose.writeDone, hclose.batch, hclose.ring, hclose.stack,
            hclose.sender, hclose.unseen⟩
        · exact .refl s
  | txKick idx => exact absurd rfl (hc idx)
  | rxKick | other => exact .refl s

theorem userOnTransmissionOpportunity_cases (s : State cfg) (a : Addr) (caller : Caller) :
    (∃ idx, (s.memory a).userData = some idx ∧
      userOnTransmissionOpportunity s a caller = { s with stack := .clearFlag idx caller }) ∨
    (∀ idx, (s.memory a).userData = some idx → (s.memory a).listening = true) ∧
      SameKicks s (userOnTransmissionOpportunity s a caller) := by
  unfold userOnTransmissionOpportunity
  cases hdata : (s.memory a).userData with
  | none => exact .inr ⟨fun _ h => (Option.some_ne_none _ h.symm).elim, .refl s⟩
  | some idx =>
    cases hlisten : (s.memory a).listening with
    | false => exact .inl ⟨idx, rfl, rfl⟩
    | true => exact .inr ⟨fun _ _ => rfl, rfl, rfl, rfl, rfl, rfl, fun _ h => h⟩

theorem reached_iff : reached s idx = true ↔ ∃ a, s.socket idx = some a ∧
    (s.memory a).userData = some idx ∧ (s.memory a).listening = false := by
  simp [reached, Option.any_eq_true]

theorem KickPending.move_sender {pc : SenderPc}
    (hpending : KickPending s idx) (hget : s.sender t ≠ .getCmd idx)
    (henq : s.sender t ≠ .enqueueCmd idx) (hbatch : s'.batch = s.batch)
    (hring : ∀ c ∈ s.ring.items, c ∈ s'.ring.items) (hstack : s'.stack = s.stack)
    (hsender : s'.sender = update s.sender t pc) : KickPending s' idx := by
  rcases hpending with hqueued | hclear | ⟨u, hu⟩
  · left
    unfold KickQueued at hqueued ⊢
    rw [hbatch]
    rw [List.mem_append] at hqueued ⊢
    exact hqueued.imp id (hring _)
  · right
    left
    rw [hstack]
    exact hclear
  · right
    right
    refine ⟨u, ?_⟩
    have hut : u ≠ t := by
      rintro rfl
      exact hu.elim hget henq
    rw [hsender, update_of_ne hut]
    exact hu

theorem testAndSet_flagCovered (hs : FlagCovered s)
    (hpc : s.sender t = .testAndSet idx) : FlagCovered (testAndSet s t idx) := by
  intro j hflag
  unfold testAndSet at hflag ⊢
  by_cases hset : s.writeDone idx = true
  · rw [if_pos hset] at hflag ⊢
    exact (hs j hflag).move_sender (by simp [hpc]) (by simp [hpc]) rfl (fun _ h => h) rfl rfl
  · rw [if_neg hset] at hflag ⊢
    by_cases hj : j = idx
    · subst hj
      exact .inr (.inr ⟨t, .inl (by simp)⟩)
    · have hold : s.writeDone j = true := by simpa [hj] using hflag
      exact (hs j hold).move_sender (by simp [hpc]) (by simp [hpc]) rfl (fun _ h => h) rfl rfl

theorem getCmd_flagCovered (hs : FlagCovered s) (hpc : s.sender t = .getCmd idx)
    (hkept : 0 < s.pool ∨ KickQueued s idx) : FlagCovered (getCmd s t idx) := by
  intro j hflag
  unfold getCmd at hflag ⊢
  by_cases hpool : 0 < s.pool
  · rw [if_pos hpool] at hflag ⊢
    by_cases hj : j = idx
    · subst hj
      exact .inr (.inr ⟨t, .inr (by simp)⟩)
    · exact (hs j hflag).move_sender (by simp [hpc, Ne.symm hj])
        (by simp [hpc]) rfl (fun _ h => h) rfl rfl
  · rw [if_neg hpool] at hflag ⊢
    by_cases hj : j = idx
    · subst hj
      exact .inl (hkept.resolve_left hpool)
    · exact (hs j hflag).move_sender (by simp [hpc, Ne.symm hj])
        (by simp [hpc]) rfl (fun _ h => h) rfl rfl

theorem enqueueCmd_flagCovered (retry : Bool)
    (hs : FlagCovered s) (hpc : s.sender t = .enqueueCmd idx)
    (hkept : s.ring.items.length < cfg.ringCap ∨ KickQueued s idx) :
    FlagCovered (enqueueCmd s t idx retry) := by
  intro j hflag
  unfold enqueueCmd at hflag ⊢
  cases henq : s.ring.enqueue (.txKick idx) with
  | some ring =>
    simp only [henq] at hflag ⊢
    have hitems := (Ring.enqueue_eq_some_iff.mp henq).2
    by_cases hj : j = idx
    · subst hj
      left
      simp [KickQueued, hitems]
    · refine (hs j hflag).move_sender (by simp [hpc]) (by simp [hpc, Ne.symm hj]) rfl ?_ rfl rfl
      intro c hc
      simp [hitems, hc]
  | none =>
    simp only [henq] at hflag ⊢
    have hfull := Ring.enqueue_eq_none_iff.mp henq
    by_cases hj : j = idx
    · subst hj
      exact .inl (hkept.resolve_left (by omega))
    · exact (hs j hflag).move_sender (by simp [hpc])
        (by simp [hpc, Ne.symm hj]) rfl (fun _ h => h) rfl rfl

theorem post_flagCovered (c : Cmd) (hs : FlagCovered s) : FlagCovered (post s c) := by
  intro j hflag
  unfold post at hflag ⊢
  cases henq : s.ring.enqueue c with
  | some ring =>
    simp only [henq] at hflag ⊢
    have hitems := (Ring.enqueue_eq_some_iff.mp henq).2
    rcases hs j hflag with hqueued | hrest
    · left
      unfold KickQueued at hqueued ⊢
      simp only [hitems]
      rw [← List.append_assoc]
      exact List.mem_append_left _ hqueued
    · exact .inr hrest
  | none =>
    simp only [henq] at hflag ⊢
    cases c <;> exact hs j hflag

theorem WillBeCounted.move_sender {pc : SenderPc}
    (hcounted : WillBeCounted s idx) (hpc : s.sender t ≠ .testAndSet idx)
    (hflag : s'.writeDone = s.writeDone) (hstack : s'.stack = s.stack)
    (hsender : s'.sender = update s.sender t pc) : WillBeCounted s' idx := by
  rcases hcounted with hset | ⟨u, hu⟩ | hcount
  · exact .inl (by rw [hflag, hset])
  · refine .inr (.inl ⟨u, ?_⟩)
    have hut : u ≠ t := by
      rintro rfl
      exact hpc hu
    rw [hsender, update_of_ne hut]
    exact hu
  · exact .inr (.inr (by rw [hstack]; exact hcount))

theorem testAndSet_unseenCovered (hs : UnseenCovered s)
    (hpc : s.sender t = .testAndSet idx) : UnseenCovered (testAndSet s t idx) := by
  intro j hunseen
  unfold testAndSet at hunseen ⊢
  by_cases hset : s.writeDone idx = true
  · rw [if_pos hset] at hunseen ⊢
    by_cases hj : j = idx
    · subst hj
      exact .inl hset
    · exact (hs j hunseen).move_sender (by simp [hpc, Ne.symm hj]) rfl rfl rfl
  · rw [if_neg hset] at hunseen ⊢
    by_cases hj : j = idx
    · exact .inl (by simp [hj])
    · rcases hs j hunseen with hold | ⟨u, hu⟩ | hcount
      · exact .inl (by simpa [hj] using hold)
      · have hut : u ≠ t := by
          rintro rfl
          rw [hpc] at hu
          injection hu with hidx
          exact hj hidx.symm
        exact .inr (.inl ⟨u, by simpa [hut] using hu⟩)
      · exact .inr (.inr hcount)

theorem getCmd_unseenCovered (hs : UnseenCovered s)
    (hpc : s.sender t = .getCmd idx) : UnseenCovered (getCmd s t idx) := by
  intro j hunseen
  unfold getCmd at hunseen ⊢
  split at hunseen
  · rename_i hpool
    rw [if_pos hpool]
    exact (hs j hunseen).move_sender (by simp [hpc]) rfl rfl rfl
  · rename_i hpool
    rw [if_neg hpool]
    exact (hs j hunseen).move_sender (by simp [hpc]) rfl rfl rfl

theorem enqueueCmd_unseenCovered (retry : Bool) (hs : UnseenCovered s)
    (hpc : s.sender t = .enqueueCmd idx) : UnseenCovered (enqueueCmd s t idx retry) := by
  intro j hunseen
  unfold enqueueCmd at hunseen ⊢
  cases henq : s.ring.enqueue (.txKick idx) <;> simp only [henq] at hunseen ⊢ <;>
    exact (hs j hunseen).move_sender (by simp [hpc]) rfl rfl rfl

theorem post_covered (c : Cmd) (hs : Covered s) : Covered (post s c) := by
  refine ⟨post_flagCovered c hs.flag, ?_⟩
  unfold post
  cases henq : s.ring.enqueue c with
  | some ring => exact hs.unseen
  | none => cases c <;> exact hs.unseen

/-! ## The steps of the stack -/

theorem Covered.move_stack (hs : Covered s) (hclear : ∀ idx, s.stack ≠ .clearFlag idx .command)
    (hcount : ∀ idx caller, s.stack ≠ .countRing idx caller) (pc : StackPc) :
    Covered { s with stack := pc } := by
  constructor
  · intro j hflag
    rcases hs.flag j hflag with hqueued | hstack | hissuing
    · exact .inl hqueued
    · exact absurd hstack (hclear j)
    · exact .inr (.inr hissuing)
  · intro j hunseen
    rcases hs.unseen j hunseen with hset | hsender | ⟨caller, hstack⟩
    · exact .inl hset
    · exact .inr (.inl hsender)
    · exact absurd hstack (hcount j caller)

theorem leaveSending_covered (caller : Caller)
    (hs : Covered { s with stack := .idle }) : Covered (leaveSending s caller) := by
  cases caller with
  | command => exact (freeCommand_sameKicks _).covered hs
  | txReady => exact hs

theorem txReady_covered (a : Addr) (hs : Covered s) (hidle : s.stack = .idle) :
    Covered (userOnTransmissionOpportunity s a .txReady) := by
  rcases userOnTransmissionOpportunity_cases s a .txReady with ⟨idx, -, hstart⟩ | ⟨-, hsame⟩
  · rw [hstart]
    exact hs.move_stack (by simp [hidle]) (by simp [hidle]) _
  · exact hsame.covered hs

theorem clearFlag_covered {caller : Caller} (hs : Covered s)
    (hpc : s.stack = .clearFlag idx caller) :
    Covered { s with
      writeDone := update s.writeDone idx false
      stack := .countRing idx caller } := by
  constructor
  · intro j hflag
    by_cases hj : j = idx
    · simp [hj] at hflag
    · have hold : s.writeDone j = true := by simpa [hj] using hflag
      rcases hs.flag j hold with hqueued | hclear | hissuing
      · exact .inl hqueued
      · rw [hpc] at hclear
        injection hclear with hidx _
        exact absurd hidx.symm hj
      · exact .inr (.inr hissuing)
  · intro j hunseen
    by_cases hj : j = idx
    · exact .inr (.inr ⟨caller, by simp [hj]⟩)
    · rcases hs.unseen j hunseen with hold | hsender | ⟨c, hcount⟩
      · exact .inl (by simpa [hj] using hold)
      · exact .inr (.inl hsender)
      · simp [hpc] at hcount

theorem countRing_covered {caller : Caller} (hs : Covered s)
    (hpc : s.stack = .countRing idx caller) (pc : StackPc) :
    Covered { s with
      unseen := update s.unseen idx false
      stack := pc } := by
  constructor
  · intro j hflag
    rcases hs.flag j hflag with hqueued | hclear | hissuing
    · exact .inl hqueued
    · simp [hpc] at hclear
    · exact .inr (.inr hissuing)
  · intro j hunseen
    by_cases hj : j = idx
    · simp [hj] at hunseen
    · have hold : s.unseen j = true := by simpa [hj] using hunseen
      rcases hs.unseen j hold with hset | hsender | ⟨c, hcount⟩
      · exact .inl hset
      · exact .inr (.inl hsender)
      · rw [hpc] at hcount
        injection hcount with hidx _
        exact absurd hidx.symm hj

theorem KickPending.pop {rest : List Cmd} {j : Idx}
    (h : KickPending s j) (hbatch : s.batch = c :: rest) (hc : c ≠ .txKick j) :
    KickPending { s with batch := rest } j := by
  rcases h with hqueued | hrest
  · left
    simpa [KickQueued, hbatch, hc.symm] using hqueued
  · exact .inr hrest

/-- A `TX_KICK` for `idx` serves the index of the user data it meets, if it serves any. -/
theorem txKick_cases (s : State cfg) (idx : Idx) (created : Option (Addr × SockType)) (ok : Bool) :
    (∃ j, (reached s idx = true → j = idx) ∧
      processCommand s created ok (.txKick idx) = { s with stack := .clearFlag j .command }) ∨
    reached s idx = false ∧ SameKicks s (processCommand s created ok (.txKick idx)) := by
  simp only [processCommand]
  cases hsocket : s.socket idx with
  | none => exact .inr ⟨by simp [reached, hsocket], .refl s⟩
  | some a =>
    rcases userOnTransmissionOpportunity_cases s a .command with ⟨j, hdata, hstart⟩ | ⟨hno, hsame⟩
    · refine .inl ⟨j, fun hreached => ?_, hstart⟩
      obtain ⟨b, hb, hown, -⟩ := reached_iff.mp hreached
      obtain rfl := Option.some.inj (hsocket.symm.trans hb)
      exact Option.some.inj (hdata.symm.trans hown)
    · refine .inr ⟨Bool.eq_false_iff.mpr fun hreached => ?_, hsame⟩
      obtain ⟨b, hb, hown, hlisten⟩ := reached_iff.mp hreached
      obtain rfl := Option.some.inj (hsocket.symm.trans hb)
      rw [hno idx hown] at hlisten
      cases hlisten

theorem processCmd_covered {rest : List Cmd} (created : Option (Addr × SockType)) (ok : Bool)
    (hs : Covered s) (hbatch : s.batch = c :: rest) (hidle : s.stack = .idle)
    (hkept : KickKept s (.processCmd created ok)) :
    Covered (freeCommand (processCommand { s with batch := rest } created ok c)) := by
  refine (freeCommand_sameKicks _).covered ?_
  by_cases hkick : ∃ idx, c = .txKick idx
  · obtain ⟨idx, rfl⟩ := hkick
    simp only [KickKept, hbatch] at hkept
    -- the kick that is taken was needed only if it reaches its index and no other one is queued
    have hflags : ∀ j, s.writeDone j = true →
        j = idx ∧ reached s idx = true ∨ KickPending { s with batch := rest } j := by
      intro j hflag
      by_cases hj : j = idx
      · subst hj
        exact hkept.imp (fun h => ⟨rfl, h⟩) .inl
      · exact .inr ((hs.flag j hflag).pop hbatch (by simp [Ne.symm hj]))
    rcases txKick_cases { s with batch := rest } idx created ok with
      ⟨i, hown, hstart⟩ | ⟨hlost, hsame⟩
    · rw [hstart]
      constructor
      · intro j hflag
        rcases hflags j hflag with ⟨rfl, hreached⟩ | hqueued | hclear | hissuing
        · exact .inr (.inl (by rw [hown hreached]))
        · exact .inl hqueued
        · simp [hidle] at hclear
        · exact .inr (.inr hissuing)
      · intro j hunseen
        rcases hs.unseen j hunseen with hset | hsender | ⟨_, hcount⟩
        · exact .inl hset
        · exact .inr (.inl hsender)
        · simp [hidle] at hcount
    · refine hsame.covered ⟨fun j hflag => ?_, hs.unseen⟩
      refine (hflags j hflag).resolve_left fun hreached => ?_
      exact Bool.false_ne_true (hlost.symm.trans hreached.2)
  · have hc : ∀ idx, c ≠ .txKick idx := fun idx h => hkick ⟨idx, h⟩
    refine (processCommand_sameKicks _ created ok hc).covered ⟨?_, hs.unseen⟩
    intro j hflag
    exact (hs.flag j hflag).pop hbatch (hc j)

theorem stackStep_covered {a : Action} (hs : Covered s) (hkept : KickKept s a)
    (hstep : stackStep s a = some s') : Covered s' := by
  cases a with
  | dequeueCmds n =>
    simp only [stackStep] at hstep
    split at hstep
    · rename_i hready
      rw [Option.map_eq_some_iff] at hstep
      obtain ⟨⟨cmds, ring⟩, hbulk, rfl⟩ := hstep
      have hitems := Ring.items_of_dequeueBulk hbulk
      refine ⟨?_, hs.unseen⟩
      intro j hflag
      rcases hs.flag j hflag with hqueued | hrest
      · left
        simpa [KickQueued, hready.2, hitems] using hqueued
      · exact .inr hrest
    · cases hstep
  | processCmd created ok =>
    simp only [stackStep] at hstep
    split at hstep
    · rename_i c rest hidle hbatch
      obtain ⟨-, rfl⟩ := of_guard hstep
      exact processCmd_covered created ok hs hbatch hidle hkept
    · cases hstep
  | peerClosed a =>
    obtain ⟨-, rfl⟩ := of_guard hstep
    exact ⟨hs.flag, hs.unseen⟩
  | reused a sock =>
    obtain ⟨-, rfl⟩ := of_guard hstep
    exact ⟨hs.flag, hs.unseen⟩
  | txReady a =>
    obtain ⟨hready, rfl⟩ := of_guard hstep
    exact txReady_covered a hs hready.1
  | clearFlag =>
    simp only [stackStep] at hstep
    split at hstep
    · rename_i idx caller hpc
      cases hstep
      exact clearFlag_covered hs hpc
    · cases hstep
  | countRing =>
    simp only [stackStep] at hstep
    split at hstep
    · rename_i idx caller hpc
      split at hstep
      · cases hstep
        exact leaveSending_covered caller (countRing_covered hs hpc .idle)
      · cases hstep
        exact countRing_covered hs hpc _
    · cases hstep
  | dequeueTx =>
    simp only [stackStep] at hstep
    split at hstep
    · cases hstep
      exact ⟨hs.flag, hs.unseen⟩
    · cases hstep
  | sendAgain =>
    simp only [stackStep] at hstep
    split at hstep
    · rename_i idx caller hpc
      cases hstep
      exact hs.move_stack (by simp [hpc]) (by simp [hpc]) _
    · cases hstep
  | sendDone =>
    simp only [stackStep] at hstep
    split at hstep
    · rename_i idx caller hpc
      cases hstep
      exact leaveSending_covered caller (hs.move_stack (by simp [hpc]) (by simp [hpc]) .idle)
    · cases hstep
  | sendBulk | testAndSet | getCmd | enqueueCmd | post => simp [stackStep] at hstep

theorem sendBulk_covered (idx : Idx) (n : Nat) (hs : Covered s) (hidle : s.sender t = .idle) :
    Covered { s with
      txRing := update s.txRing idx (s.txRing idx + n)
      unseen := update s.unseen idx true
      sender := update s.sender t (.testAndSet idx) } := by
  constructor
  · intro j hflag
    exact (hs.flag j hflag).move_sender (by simp [hidle]) (by simp [hidle]) rfl
      (fun _ h => h) rfl rfl
  · intro j hunseen
    by_cases hj : j = idx
    · exact .inr (.inl ⟨t, by simp [hj]⟩)
    · have hold : s.unseen j = true := by simpa [hj] using hunseen
      exact (hs.unseen j hold).move_sender (by simp [hidle]) rfl rfl rfl

theorem step_covered {a : Action} (hs : Covered s) (hkept : KickKept s a)
    (hstep : step s a = some s') : Covered s' := by
  cases a with
  | sendBulk t idx n =>
    simp only [step] at hstep
    split at hstep
    · rename_i hidle
      cases hstep
      exact sendBulk_covered idx n hs hidle
    · cases hstep
  | testAndSet t =>
    simp only [step] at hstep
    split at hstep
    · rename_i idx hpc
      cases hstep
      exact ⟨testAndSet_flagCovered hs.flag hpc, testAndSet_unseenCovered hs.unseen hpc⟩
    · cases hstep
  | getCmd t =>
    simp only [step] at hstep
    split at hstep
    · rename_i idx hpc
      cases hstep
      exact ⟨getCmd_flagCovered hs.flag hpc (by simpa [KickKept, hpc] using hkept),
        getCmd_unseenCovered hs.unseen hpc⟩
    · cases hstep
  | enqueueCmd t retry =>
    simp only [step] at hstep
    split at hstep
    · rename_i idx hpc
      cases hstep
      exact ⟨enqueueCmd_flagCovered retry hs.flag hpc (by simpa [KickKept, hpc] using hkept),
        enqueueCmd_unseenCovered retry hs.unseen hpc⟩
    · cases hstep
  | post c =>
    simp only [step] at hstep
    split at hstep
    · cases hstep
    · split at hstep
      · cases hstep
        exact post_covered c hs
      · cases hstep
  | dequeueCmds | processCmd | peerClosed | reused | txReady | clearFlag | countRing
  | dequeueTx | sendAgain | sendDone =>
    simp only [step] at hstep
    split at hstep
    · cases hstep
    · exact stackStep_covered hs hkept hstep

/-- As long as no `TX_KICK` is lost without another one behind it, buffers not counted yet belong to
a sender that has yet to test the flag, or will be counted. -/
theorem kick_not_lost {s : State cfg}
    (hreach : (kickSystem cfg).ReachableUnder KickKept s) (idx : Idx) :
    (s.writeDone idx = true → KickPending s idx) ∧
      (s.unseen idx = true → KickPending s idx ∨ (∃ t, s.sender t = .testAndSet idx) ∨
          ∃ caller, s.stack = .countRing idx caller) := by
  have hs : Covered s := by
    refine hreach.invariant ?_ ?_
    · rintro _ rfl
      exact ⟨by simp [FlagCovered, start], by simp [UnseenCovered, start]⟩
    · intro s a t hs hkept hstep
      exact step_covered hs hkept hstep
  refine ⟨hs.flag idx, ?_⟩
  intro hset
  rcases hs.unseen idx hset with hdone | hsender | hcount
  · exact .inl (hs.flag idx hdone)
  · exact .inr (.inl hsender)
  · exact .inr (.inr hcount)

def oneSend : List Action :=
  [.post (.openSocket 0), .dequeueCmds 1, .processCmd (some (0, .stream)) true,
    .sendBulk 0 0 1, .testAndSet 0, .getCmd 0, .enqueueCmd 0 false]

theorem kick_not_lost_one_send : ∃ s : State lightConfig,
      (kickSystem lightConfig).ReachableUnder KickKept s ∧
        s.writeDone 0 = true ∧ KickPending s 0 := by
  obtain ⟨s, hreach, hset⟩ :=
    (kickSystem lightConfig).exists_reachableUnder KickKept (start lightConfig) oneSend
      (P := fun s => s.writeDone 0 = true) rfl (by decide)
  exact ⟨s, hreach, hset, (kick_not_lost hreach 0).1 hset⟩

/-! ## A lost kick

The pool has one buffer more than the ring has room. After as many `RX_KICK`s
as the ring holds, a sender gets the last buffer, finds the ring full and drops
its `TX_KICK` with the flag set; every later sender finds the flag set. -/

structure Loaded (n : Nat) (s : State lightConfig) : Prop where
  reachable : (kickSystem lightConfig).Reachable s
  pool : s.pool + n = lightConfig.poolSize
  ring : s.ring.items = List.replicate n (.rxKick 0)
  batch : s.batch = []
  stack : s.stack = .idle
  writeDone : s.writeDone = fun _ => false
  txRing : s.txRing = fun _ => 0
  sender : s.sender = fun _ => .idle

theorem exists_loaded_zero : ∃ s, Loaded 0 s := by
  let opened : State lightConfig :=
    { start lightConfig with
      socket := update (fun _ => none) 0 (some 0)
      memory := update (start lightConfig).memory 0 ⟨true, .stream, false, some 0⟩ }
  have hopen : (kickSystem lightConfig).exec (start lightConfig)
      [.post (.openSocket 0), .dequeueCmds 1,
        .processCmd (some (0, .stream)) true] = some opened := rfl
  have hreach : (kickSystem lightConfig).Reachable opened := .exec (.start rfl) hopen
  exact ⟨opened, hreach, rfl, rfl, rfl, rfl, rfl, rfl, rfl⟩

theorem Loaded.post_rxKick {n : Nat} {s : State lightConfig} (hs : Loaded n s)
    (hn : n < lightConfig.ringCap) : ∃ t, Loaded (n + 1) t := by
  have hlength : s.ring.items.length = n := by simp [hs.ring]
  have hroom : s.ring.items.length < lightConfig.ringCap := by
    rw [hlength]
    exact hn
  have hpool : 0 < s.pool := by
    have hpool := hs.pool
    simp only [lightConfig] at hpool hn
    omega
  obtain ⟨ring, henq⟩ : ∃ ring, s.ring.enqueue (.rxKick 0) = some ring := ⟨_, dif_pos hroom⟩
  have hstep : (kickSystem lightConfig).step s (.post (.rxKick 0)) =
      some { s with pool := s.pool - 1, ring := ring } := by
    simp [kickSystem, step, hpool, post, henq]
  refine ⟨_, .next hs.reachable trivial hstep, ?_, ?_, hs.batch, hs.stack,
    hs.writeDone, hs.txRing, hs.sender⟩
  · have hpool := hs.pool
    simp only
    omega
  · rw [(Ring.enqueue_eq_some_iff.mp henq).2, hs.ring, List.replicate_succ']

theorem exists_loaded {n : Nat} (hn : n ≤ lightConfig.ringCap) : ∃ s, Loaded n s := by
  induction n with
  | zero => exact exists_loaded_zero
  | succ n ih =>
    obtain ⟨s, hs⟩ := ih (Nat.le_of_succ_le hn)
    exact hs.post_rxKick hn

theorem kick_lost_on_full_ring : ∃ s : State lightConfig, (kickSystem lightConfig).Reachable s ∧
      s.sender 0 = .idle ∧ s.txRing 0 = 1 ∧ s.writeDone 0 = true ∧
        ¬ KickPending s 0 := by
  obtain ⟨s, hs⟩ := exists_loaded (Nat.le_refl lightConfig.ringCap)
  have hfull : s.ring.enqueue (.txKick 0) = none := by
    rw [Ring.enqueue_eq_none_iff, hs.ring, List.length_replicate]
  have hpool : 0 < s.pool := by
    have hpool := hs.pool
    simp only [lightConfig] at hpool
    omega
  have hrun : (kickSystem lightConfig).exec s
      [.sendBulk 0 0 1, .testAndSet 0, .getCmd 0, .enqueueCmd 0 false] =
      some { s with
        txRing := update s.txRing 0 1
        unseen := update s.unseen 0 true
        writeDone := update s.writeDone 0 true
        pool := s.pool - 1 + 1
        sender := update s.sender 0 .idle } := by
    simp [TransitionSystem.exec, kickSystem, step, testAndSet, getCmd,
      enqueueCmd, hs.sender, hs.writeDone, hs.txRing, hpool, hfull]
  refine ⟨_, hs.reachable.exec hrun, by simp, by simp, by simp, ?_⟩
  rintro (hqueued | hclear | ⟨t, ht⟩)
  · simp [KickQueued, hs.batch, hs.ring] at hqueued
  · simp [hs.stack] at hclear
  · simp [hs.sender, update_apply] at ht

end LightStack.Tx.Kick
