import LightStack.Glue.Commands

/-!
# What the steps of the glue leave alone

`Same` says that no socket was closed, opened or given to another index, `Ends` what closing one
changes.
-/

namespace LightStack.Glue

open Lib Function

structure Same (s t : State) : Prop where
  state : t.state = s.state
  attached : t.attached = s.attached
  released : t.released = s.released
  userData : t.userData = s.userData
  closed : ∀ a, a ∈ s.list .closed → a ∈ t.list .closed
  flagged : Flagged s.list s.present → Flagged t.list t.present

namespace Same

variable {s t u : State} {a : Nat} {r : Ready}

theorem refl (s : State) : Same s s := ⟨rfl, rfl, rfl, rfl, fun _ h => h, id⟩

theorem trans (h : Same s t) (h' : Same t u) : Same s u :=
  ⟨h'.state.trans h.state, h'.attached.trans h.attached, h'.released.trans h.released,
    h'.userData.trans h.userData, fun a ha => h'.closed a (h.closed a ha),
    fun hf => h'.flagged (h.flagged hf)⟩

theorem insert (habsent : s.present r a = false) : Same s (insert s r a) where
  state := rfl
  attached := rfl
  released := rfl
  userData := rfl
  closed := fun b hb => by
    by_cases hr : Ready.closed = r
    · subst hr
      simp [Glue.insert, setReady, hb]
    · simpa [Glue.insert, setReady, hold, hr] using hb
  flagged := fun hf => hf.insert habsent

theorem remove (hr : r ≠ .closed) : Same s (remove s r a) where
  state := rfl
  attached := rfl
  released := rfl
  userData := rfl
  closed := fun b hb => by simpa [Glue.remove, setReady, Ne.symm hr] using hb
  flagged := fun hf => hf.erase

theorem readable : Same s (appGlueSockReadable s a) := by
  unfold appGlueSockReadable
  split
  · exact refl s
  split
  · exact refl s
  split
  · split
    · exact ⟨rfl, rfl, rfl, rfl, fun _ h => h, id⟩
    · exact refl s
  · rename_i habsent
    exact insert (Bool.eq_false_iff.mpr habsent)

theorem writeSpace (writeable : Bool) : Same s (appGlueSockWriteSpace s a writeable) := by
  unfold appGlueSockWriteSpace
  split
  · exact refl s
  split
  · exact refl s
  split
  · exact refl s
  · rename_i habsent
    simp only [Bool.or_eq_true, not_or, Bool.not_eq_true] at habsent
    exact insert habsent.2

theorem errorReport : Same s (appGlueSockErrorReport s a) := by
  unfold appGlueSockErrorReport
  split
  · exact refl s
  · rename_i hcond
    simp only [Bool.or_eq_true, not_or, Bool.not_eq_true] at hcond
    exact insert hcond.2

theorem lookup (listener : Option Nat) : Same s (lookupListener s listener) := by
  cases listener with
  | none => exact refl s
  | some l => exact ⟨rfl, rfl, rfl, rfl, fun _ h => h, id⟩

theorem wakeup (listener : Option Nat) (writeable : Bool) :
    Same s (appGlueSockWakeup s a listener writeable) := by
  have hlookup : Same s (lookupListener s listener) := lookup listener
  unfold appGlueSockWakeup
  dsimp only
  split
  · split
    · exact hlookup
    · rename_i habsent
      exact hlookup.trans (insert (Bool.eq_false_iff.mpr habsent))
  · split
    · exact hlookup.trans ⟨rfl, rfl, rfl, rfl, fun _ h => h, id⟩
    · split
      · exact hlookup
      · exact hlookup.trans (writeSpace writeable)
  case _ | _ =>
    split
    · exact hlookup
    · split
      · exact hlookup
      · rename_i habsent
        exact hlookup.trans (insert (Bool.eq_false_iff.mpr habsent))
  · exact hlookup.trans (writeSpace writeable)

end Same

/-! ## Closing -/

structure Ends (s t : State) (a : Nat) : Prop where
  attached : t.attached = update s.attached a false
  released : t.released = update s.released a (s.released a || s.attached a)
  state : t.state a ≠ .established
  state_ne : ∀ b, b ≠ a → t.state b = s.state b
  closed : ∀ b, b ≠ a → b ∈ s.list .closed → b ∈ t.list .closed
  flagged : Flagged s.list s.present → Flagged t.list t.present

section Closing

variable {s t : State} {a : Nat} {dies : Bool}

theorem kernelClose_ends : Ends s (kernelClose s a dies) a where
  attached := rfl
  released := rfl
  state := by
    simp only [kernelClose, update_self]
    split <;> simp
  state_ne := fun b hb => by simp [kernelClose, hb]
  closed := fun _ _ h => h
  flagged := id

theorem Ends.of_prepared {u : State} (h : Ends u t a) (hattached : u.attached = s.attached)
    (hreleased : u.released = s.released) (hstate : u.state = s.state)
    (hclosed : ∀ b, b ≠ a → b ∈ s.list .closed → b ∈ u.list .closed)
    (hflagged : Flagged s.list s.present → Flagged u.list u.present) : Ends s t a where
  attached := by rw [h.attached, hattached]
  released := by rw [h.released, hreleased, hattached]
  state := h.state
  state_ne := fun b hb => by rw [h.state_ne b hb, hstate]
  closed := fun b hb hmem => h.closed b hb (hclosed b hb hmem)
  flagged := fun hf => h.flagged (hflagged hf)

theorem closeFirst_ends : Ends s (kernelClose (put (remove (touch s a) .closed a) a) a dies) a := by
  refine kernelClose_ends.of_prepared rfl rfl rfl (fun b hb hmem => ?_) fun hf => hf.erase
  simpa [put, touch, remove, setReady, List.mem_erase_of_ne hb] using hmem

structure Leaves (s t : State) (a : Nat) : Prop where
  attached : t.attached = s.attached
  released : t.released = s.released
  state : t.state = s.state
  userData : t.userData = s.userData
  closed : ∀ b, b ≠ a → b ∈ s.list .closed → b ∈ t.list .closed
  flagged : Flagged s.list s.present → Flagged t.list t.present

theorem Leaves.trans {u : State} (h : Leaves s t a) (h' : Leaves t u a) : Leaves s u a :=
  ⟨h'.attached.trans h.attached, h'.released.trans h.released, h'.state.trans h.state,
    h'.userData.trans h.userData, fun b hb hmem => h'.closed b hb (h.closed b hb hmem),
    fun hf => h'.flagged (h.flagged hf)⟩

theorem leave_leaves {r : Ready} {after : State → State}
    (hafter : ∀ u, (after u).attached = u.attached ∧ (after u).released = u.released ∧
      (after u).state = u.state ∧ (after u).userData = u.userData ∧
      (after u).list = u.list ∧ (after u).present = u.present) :
    Leaves s (leave s r a after) a := by
  unfold leave
  split
  · obtain ⟨hattached, hreleased, hstate, hdata, hlist, hpresent⟩ := hafter (remove s r a)
    refine ⟨hattached, hreleased, hstate, hdata, fun b hb hmem => ?_, fun hf => ?_⟩
    · rw [hlist]
      by_cases hr : Ready.closed = r
      · subst hr
        simpa [remove, setReady, List.mem_erase_of_ne hb] using hmem
      · simpa [remove, setReady, hr] using hmem
    · rw [hlist, hpresent]
      exact hf.erase
  · exact ⟨rfl, rfl, rfl, rfl, fun _ _ h => h, id⟩

theorem leaveAll_leaves :
    Leaves s (leaveClosed (leaveAccept (leaveWrite (leaveRead s a) a) a) a) a := by
  have hread : Leaves s (leaveRead s a) a := leave_leaves fun _ => ⟨rfl, rfl, rfl, rfl, rfl, rfl⟩
  have hwrite : ∀ s, Leaves s (leaveWrite s a) a :=
    fun _ => leave_leaves fun _ => ⟨rfl, rfl, rfl, rfl, rfl, rfl⟩
  have haccept : ∀ s, Leaves s (leaveAccept s a) a :=
    fun _ => leave_leaves fun _ => ⟨rfl, rfl, rfl, rfl, rfl, rfl⟩
  have hclosed : ∀ s, Leaves s (leaveClosed s a) a :=
    fun _ => leave_leaves fun _ => ⟨rfl, rfl, rfl, rfl, rfl, rfl⟩
  exact ((hread.trans (hwrite _)).trans (haccept _)).trans (hclosed _)

theorem close_ends : Ends s (appGlueCloseSocket s a dies) a := by
  have h := leaveAll_leaves (s := touch s a) (a := a)
  exact kernelClose_ends.of_prepared h.attached h.released h.state h.closed h.flagged

theorem close_userData : (appGlueCloseSocket s a dies).userData = update s.userData a none := by
  have h := (leaveAll_leaves (s := touch s a) (a := a)).userData
  simp only [appGlueCloseSocket, kernelClose, touch] at h ⊢
  rw [h]

end Closing

section Loops

variable {s t : State} {kept dies : Bool}

theorem rx_cases (hstep : processRxReadySockets s kept dies = some t) :
    (Commands.hangsUp s (.rx kept dies) = none ∧ Same s t) ∨
      ∃ a, Commands.hangsUp s (.rx kept dies) = some a ∧
        t = kernelClose (put (remove (touch s a) .closed a) a) a dies := by
  unfold processRxReadySockets at hstep
  unfold Commands.hangsUp
  split at hstep
  case _ hpc =>
    cases hstep
    exact .inl ⟨by simp [hpc], rfl, rfl, rfl, rfl, fun _ h => h, id⟩
  case _ hpc =>
    split at hstep
    · rename_i hlist
      cases hstep
      exact .inl ⟨by simp [hpc, hlist], rfl, rfl, rfl, rfl, fun _ h => h, id⟩
    · rename_i a l hlist
      cases hstep
      exact .inr ⟨a, by simp [hpc, hlist], rfl⟩
  case _ hpc =>
    cases hstep
    exact .inl ⟨by simp [hpc], rfl, rfl, rfl, rfl, fun _ h => h, id⟩
  case _ a hpc =>
    cases hstep
    refine .inl ⟨by simp [hpc], ?_⟩
    split
    · exact ⟨rfl, rfl, rfl, rfl, fun _ h => h, id⟩
    · have h : Same s (remove s .accept a) := .remove (by simp)
      exact ⟨rfl, rfl, rfl, rfl, h.closed, h.flagged⟩
  case _ idx limit hpc =>
    split at hstep
    · cases hstep
      exact .inl ⟨by simp [hpc], rfl, rfl, rfl, rfl, fun _ h => h, id⟩
    · rename_i a l hlist
      split at hstep
      · cases hstep
        have h : Same s (remove s .read a) := .remove (by simp)
        exact .inl ⟨by simp [hpc], rfl, rfl, rfl, rfl, h.closed, h.flagged⟩
      · cases hstep
        exact .inl ⟨by simp [hpc], rfl, rfl, rfl, rfl, fun _ h => h, id⟩
  case _ a idx limit hpc =>
    cases hstep
    exact .inl ⟨by simp [hpc], rfl, rfl, rfl, rfl, fun _ h => h, id⟩
  case _ => cases hstep

theorem tx_same (hstep : processTxReadySockets s = some t) : Same s t := by
  unfold processTxReadySockets at hstep
  split at hstep
  case _ =>
    cases hstep
    exact ⟨rfl, rfl, rfl, rfl, fun _ h => h, id⟩
  case _ =>
    split at hstep
    · cases hstep
      exact ⟨rfl, rfl, rfl, rfl, fun _ h => h, id⟩
    · rename_i a l hlist
      split at hstep
      · cases hstep
        have h : Same s (remove s .write a) := .remove (by simp)
        exact ⟨rfl, rfl, rfl, rfl, h.closed, h.flagged⟩
      · cases hstep
        exact ⟨rfl, rfl, rfl, rfl, fun _ h => h, id⟩
  case _ =>
    cases hstep
    exact ⟨rfl, rfl, rfl, rfl, fun _ h => h, id⟩
  case _ => cases hstep

end Loops

namespace Commands

inductive Effect (s : State) (action : Glue.Action) (g : Glue.State) : Prop where
  | same (hangs : hangsUp s.glue action = none) (h : Same s.glue g)
  | hangs (b : Nat) (hangs : hangsUp s.glue action = some b) (h : Ends s.glue g b)
      (hdata : g.userData = s.glue.userData)
  | child (b : Nat) (hangs : hangsUp s.glue action = none)
      (connects : connects s.glue action = none) (hunused : unused s.glue b = true)
      (h : g = make s.glue b true false .established)
  | tcp (b : Nat) (state : TcpState) (hangs : hangsUp s.glue action = none)
      (connects : connects s.glue action = none)
      (hpeer : state = .established → s.peerClosed b = false) (h : g = setState s.glue b state)
  | discard (b : Nat) (dies : Bool) (hangs : hangsUp s.glue action = none)
      (connects : connects s.glue action = none) (hwaiting : waiting s.glue b = true)
      (h : g = kernelClose (graft s.glue b) b dies)

theorem effect_of_step {s : State} {action : Glue.Action} {g : Glue.State}
    (hinternal : internal s action = true) (hstep : Glue.step s.glue action = some g) :
    Effect s action g := by
  unfold Glue.step at hstep
  obtain ⟨-, hstep⟩ := Option.ite_none_left_eq_some.mp hstep
  cases action with
  | create | graft | setUserData | close => cases hinternal
  | child a =>
    obtain ⟨hunused, rfl⟩ := of_guard hstep
    exact .child a rfl rfl hunused rfl
  | tcp a state =>
    obtain ⟨-, rfl⟩ := of_guard hstep
    refine .tcp a state rfl rfl ?_ rfl
    rintro rfl
    simpa [internal] using hinternal
  | tcpHold | tcpPut =>
    obtain ⟨-, rfl⟩ := of_guard hstep
    exact .same rfl ⟨rfl, rfl, rfl, rfl, fun _ h => h, id⟩
  | readable a =>
    obtain ⟨-, rfl⟩ := of_guard hstep
    exact .same rfl .readable
  | writeSpace a writeable =>
    obtain ⟨-, rfl⟩ := of_guard hstep
    exact .same rfl (.writeSpace writeable)
  | errorReport a =>
    obtain ⟨-, rfl⟩ := of_guard hstep
    exact .same rfl .errorReport
  | wakeup a listener writeable =>
    obtain ⟨-, rfl⟩ := of_guard hstep
    exact .same rfl (.wakeup listener writeable)
  | rx kept dies =>
    rcases rx_cases hstep with ⟨hangs, h⟩ | ⟨a, hangs, rfl⟩
    · exact .same hangs h
    · exact .hangs a hangs closeFirst_ends rfl
  | tx => exact .same rfl (tx_same hstep)
  | discard a dies =>
    obtain ⟨hwaiting, rfl⟩ := of_guard hstep
    exact .discard a dies rfl rfl hwaiting rfl

section Notify

variable (s : State) (action : Glue.Action)

theorem notify_satellite : (notify s action).satellite = s.satellite := by
  unfold notify
  split <;> rfl

theorem notify_taken : (notify s action).taken = s.taken := by
  unfold notify
  split <;> rfl

theorem notify_stage : (notify s action).stage = s.stage := by
  unfold notify
  split <;> rfl

theorem notify_peerClosed : (notify s action).peerClosed = s.peerClosed := by
  unfold notify
  split <;> rfl

variable {s action}

theorem notify_of_none (hangs : hangsUp s.glue action = none) :
    notify s action = { s with signal := setSignal s.signal (connects s.glue action) 2 } := by
  unfold notify
  rw [hangs]

theorem notify_of_some {b : Nat} (hangs : hangsUp s.glue action = some b) :
    notify s action = userOnSocketFatal s b := by
  unfold notify
  rw [hangs]

theorem mem_of_hangsUp {b : Nat} (hangs : hangsUp s.glue action = some b) :
    b ∈ s.glue.list .closed := by
  unfold hangsUp at hangs
  split at hangs
  · split at hangs
    · exact List.mem_of_mem_head? hangs
    · cases hangs
  · cases hangs

end Notify

end Commands

end LightStack.Glue
