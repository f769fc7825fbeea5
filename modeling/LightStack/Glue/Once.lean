import LightStack.Glue.Frame

/-!
# Kernel sockets are closed once
-/

namespace LightStack.Glue.Commands

open Lib Function

def inUse (s : State) (c : Nat) : Prop := ∀ a ∈ s.satellite c, s.hungUp a = false

def NotHungUp (s : State) : Action → Prop
  | .glue a => Intact s.glue a
  | .setSocketRing a => s.hungUp a = false
  | .decline a _ => s.hungUp a = false
  | .close c _ => inUse s c
  | .shutdown c _ _ => inUse s c
  | .txKick c => inUse s c
  | .rxKick c => inUse s c
  | _ => True

def Stage.carried : Stage → Bool
  | .ring | .setting _ | .declining => true
  | _ => false

structure Owned (s : State) : Prop where
  kept : ∃ n, Kept s.glue n
  hung : ∀ a, s.hungUp a = true → s.glue.released a = true
  satellite : ∀ c a, s.satellite c = some a →
    s.stage a = .bound c ∧ (s.glue.attached a = true ∨ s.hungUp a = true)
  carried : ∀ a, (s.stage a).carried = true → s.glue.attached a = true ∨ s.hungUp a = true

variable {c a : Nat} {g : Glue.State} {listener : Option Nat}

namespace Owned

variable {s t : State}

theorem start (h : Start s) : Owned s where
  kept := ⟨_, Kept.start h.glue⟩
  hung := fun a ha => by simp [h.hungUp_eq] at ha
  satellite := fun c a ha => by simp [h.satellite_eq] at ha
  carried := fun a ha => by simp [h.stage_eq, Stage.carried] at ha

theorem attached_of_inUse (h : Owned s) (hinUse : inUse s c)
    (ha : s.satellite c = some a) : s.glue.attached a = true :=
  (h.satellite c a ha).2.resolve_right (by simp [hinUse a ha])

theorem keep (h : Owned s) (hkept : ∃ n, Kept t.glue n)
    (hhung : ∀ a, t.hungUp a = true → t.glue.released a = true)
    (hlive : ∀ a, s.glue.attached a = true ∨ s.hungUp a = true →
      t.glue.attached a = true ∨ t.hungUp a = true)
    (hsatellite : t.satellite = s.satellite) (hstage : t.stage = s.stage) : Owned t where
  kept := hkept
  hung := hhung
  satellite := fun c a ha => by
    rw [hsatellite] at ha
    obtain ⟨hbound, hor⟩ := h.satellite c a ha
    exact ⟨hstage ▸ hbound, hlive a hor⟩
  carried := fun a ha => hlive a (h.carried a (hstage ▸ ha))

theorem unowned (h : Owned s) (hreleased : s.glue.released a = false)
    (hattached : s.glue.attached a = false) : ¬ (s.glue.attached a = true ∨ s.hungUp a = true) := by
  rintro (ha | ha)
  · simp [hattached] at ha
  · simp [h.hung a ha] at hreleased

theorem unowned_of_unused (h : Owned s) (hunused : unused s.glue a = true) :
    ¬ (s.glue.attached a = true ∨ s.hungUp a = true) := by
  simp only [unused, Bool.and_eq_true, Bool.not_eq_true'] at hunused
  exact h.unowned hunused.1.2 hunused.2

theorem unowned_of_waiting (h : Owned s) (hwaiting : waiting s.glue a = true) :
    ¬ (s.glue.attached a = true ∨ s.hungUp a = true) := by
  simp only [waiting, Bool.and_eq_true, Bool.not_eq_true'] at hwaiting
  exact h.unowned hwaiting.1.2 hwaiting.2

/-! ## Steps of the glue -/

theorem glue (h : Owned s) {action : Glue.Action} (hintact : Intact s.glue action)
    (hinternal : internal s action = true) (hstep : Glue.step s.glue action = some g) :
    Owned { notify s action with glue := g } := by
  obtain ⟨n, hkept⟩ := h.kept
  have hkept' : ∃ n, Kept g n := ⟨_, hkept.step hintact hstep⟩
  have hsatellite := notify_satellite s action
  have hstage := notify_stage s action
  have hsilent : hangsUp s.glue action = none → (notify s action).hungUp = s.hungUp := by
    intro hangs
    rw [notify_of_none hangs]
  cases effect_of_step hinternal hstep with
  | same hangs hsame =>
    refine h.keep hkept' (fun a ha => ?_) (fun a ha => ?_) hsatellite hstage
    · rw [hsame.released]
      exact h.hung a (hsilent hangs ▸ ha)
    · rw [hsame.attached, hsilent hangs]
      exact ha
  | hangs b hangs hends _ =>
    have hung : (notify s action).hungUp = update s.hungUp b true := by
      rw [notify_of_some hangs]
      rfl
    have hattached : s.glue.attached b = true := hkept.listed _ _ (mem_of_hangsUp hangs)
    refine h.keep hkept' (fun a ha => ?_) (fun a ha => ?_) hsatellite hstage
    · rw [hends.released]
      by_cases hab : a = b
      · simp [hab, hattached]
      · rw [update_of_ne hab]
        exact h.hung a (by simpa [hung, hab] using ha)
    · dsimp only
      rw [hung, hends.attached]
      by_cases hab : a = b
      · exact .inr (by simp [hab])
      · simpa [hab] using ha
  | child b hangs _ hunused heq =>
    have hnew := h.unowned_of_unused hunused
    subst heq
    refine h.keep hkept' (fun a ha => ?_) (fun a ha => ?_) hsatellite hstage
    · exact h.hung a (hsilent hangs ▸ ha)
    · dsimp only
      rw [hsilent hangs]
      have hab : a ≠ b := fun hab => hnew (hab ▸ ha)
      simpa [make, hab] using ha
  | tcp b state hangs _ _ heq =>
    subst heq
    refine h.keep hkept' (fun a ha => ?_) (fun a ha => ?_) hsatellite hstage
    · exact h.hung a (hsilent hangs ▸ ha)
    · dsimp only
      rw [hsilent hangs]
      exact ha
  | discard b dies hangs _ hwaiting heq =>
    have hnew := h.unowned_of_waiting hwaiting
    have hends : Ends (graft s.glue b) g b := heq ▸ kernelClose_ends
    refine h.keep hkept' (fun a ha => ?_) (fun a ha => ?_) hsatellite hstage
    · have hreleased := h.hung a (hsilent hangs ▸ ha)
      rw [hends.released]
      by_cases hab : a = b
      · simp [graft, hab]
      · simpa [graft, hab] using hreleased
    · dsimp only
      rw [hsilent hangs, hends.attached]
      have hab : a ≠ b := fun hab => hnew (hab ▸ ha)
      simpa [graft, hab] using ha

theorem callback (h : Owned s) (hkept : ∃ n, Kept g n)
    (hattached : g.attached = s.glue.attached) (hreleased : g.released = s.glue.released)
    {peerClosed : Nat → Bool} : Owned { s with glue := g, peerClosed := peerClosed } :=
  h.keep hkept (fun a ha => by rw [hreleased]; exact h.hung a ha)
    (fun a ha => by rw [hattached]; exact ha) rfl rfl

theorem setState_kept {n : Nat → Nat} (h : Kept g n) (a : Nat)
    (state : TcpState) : Kept (setState g a state) n :=
  { h with }

theorem listening_setState {state : TcpState} (h : listening g listener = true)
    (ha : g.state a ≠ .listen) : listening (setState g a state) listener = true := by
  cases listener with
  | none => rfl
  | some l =>
    simp only [listening, Bool.and_eq_true, decide_eq_true_eq] at h ⊢
    have hla : l ≠ a := fun hla => ha (hla ▸ h.1)
    exact ⟨by simpa [setState, hla] using h.1, h.2⟩

theorem fin (h : Owned s) (writeable : Bool) (hstate : s.glue.state a = .established)
    (hlistening : listening s.glue listener = true) : Owned (tcpFin s a listener writeable) := by
  obtain ⟨n, hkept⟩ := h.kept
  have hset := setState_kept hkept a .closeWait
  have hlistening' : listening (setState s.glue a .closeWait) listener = true :=
    listening_setState hlistening (by simp [hstate])
  have hsame : Same (setState s.glue a .closeWait)
      (appGlueSockWakeup (setState s.glue a .closeWait) a listener writeable) :=
    .wakeup listener writeable
  exact h.callback ⟨_, hset.wakeup hlistening' writeable⟩ hsame.attached hsame.released

theorem reset (h : Owned s) (writeable : Bool) (hstate : s.glue.state a ≠ .listen)
    (hlistening : listening s.glue listener = true) : Owned (tcpReset s a listener writeable) := by
  obtain ⟨n, hkept⟩ := h.kept
  have herror : Same s.glue (appGlueSockErrorReport s.glue a) := .errorReport
  have hset := setState_kept (hkept.errorReport (a := a)) a .close
  have hlistening' : listening (setState (appGlueSockErrorReport s.glue a) a .close) listener =
      true := by
    refine listening_setState ?_ (by rw [herror.state]; exact hstate)
    cases listener with
    | none => rfl
    | some l =>
      simp only [listening, herror.state, herror.attached] at hlistening ⊢
      exact hlistening
  have hsame : Same (setState (appGlueSockErrorReport s.glue a) a .close)
      (appGlueSockWakeup (setState (appGlueSockErrorReport s.glue a) a .close) a listener
        writeable) := .wakeup listener writeable
  exact h.callback ⟨_, hset.wakeup hlistening' writeable⟩
    (hsame.attached.trans herror.attached) (hsame.released.trans herror.released)

/-! ## Commands -/

section

variable (h : Owned s)

include h

theorem close {satellite : Nat → Option Nat} (hkept : ∃ n, Kept g n) (hends : Ends s.glue g a)
    (hsatellite : ∀ c b, satellite c = some b → b ≠ a ∧ s.satellite c = some b) :
    Owned { s with
      glue := g, satellite := satellite, stage := update s.stage a .gone } where
  kept := hkept
  hung := fun b hb => by
    have hreleased := h.hung b hb
    dsimp only
    rw [hends.released]
    by_cases hba : b = a
    · subst hba
      simp [hreleased]
    · simpa [hba] using hreleased
  satellite := fun c b hb => by
    obtain ⟨hba, hold⟩ := hsatellite c b hb
    obtain ⟨hbound, hor⟩ := h.satellite c b hold
    dsimp only
    rw [hends.attached]
    exact ⟨by simpa [hba] using hbound, by simpa [hba] using hor⟩
  carried := fun b hb => by
    dsimp only at hb ⊢
    by_cases hba : b = a
    · simp [hba, Stage.carried] at hb
    · rw [hends.attached]
      simp only [update_of_ne hba] at hb ⊢
      exact h.carried b hb

theorem closeKernelSocket_ends (ha : s.glue.attached a = true) (hpc : s.glue.pc = .idle)
    (dies : Bool) :
    (∃ n, Kept (closeKernelSocket s a dies).glue n) ∧
      Ends s.glue (closeKernelSocket s a dies).glue a := by
  obtain ⟨n, hkept⟩ := h.kept
  have htouch : touch s.glue a = s.glue := hkept.touch_eq ha
  simp only [closeKernelSocket, htouch]
  exact ⟨⟨_, hkept.close ha hpc dies⟩, close_ends⟩

theorem closeIndex (hpc : s.glue.pc = .idle) (hinUse : inUse s c) (ha : s.satellite c = some a)
    (dies : Bool) : Owned (closeIndex s c a dies) := by
  have hattached := h.attached_of_inUse hinUse ha
  obtain ⟨hkept, hends⟩ := h.closeKernelSocket_ends hattached hpc dies
  have hclosed : Owned { s with
      glue := (closeKernelSocket s a dies).glue
      satellite := update s.satellite c none
      stage := update s.stage a .gone } := by
    refine h.close hkept hends fun c' b hb => ?_
    obtain ⟨hc, hb⟩ := of_update_eq hb (by simp)
    refine ⟨?_, hb⟩
    rintro rfl
    have hbound := (h.satellite c' b hb).1.symm.trans (h.satellite c b ha).1
    exact hc (by injection hbound)
  exact { hclosed with }

theorem decline {dies : Bool} (hpc : s.glue.pc = .idle) (hstage : s.stage a = .declining)
    (hung : s.hungUp a = false) : Owned (closeKernelSocket s a dies) := by
  have hattached : s.glue.attached a = true :=
    (h.carried a (by simp [hstage, Stage.carried])).resolve_right (by simp [hung])
  obtain ⟨hkept, hends⟩ := h.closeKernelSocket_ends hattached hpc dies
  refine h.close hkept hends fun c b hb => ⟨?_, hb⟩
  rintro rfl
  have hbound := (h.satellite c b hb).1
  simp [hstage] at hbound

theorem use (hinUse : inUse s c) (ha : s.satellite c = some a)
    (hg : g = touch s.glue a ∨ g = crash (touch s.glue a)) : Owned { s with glue := g } := by
  obtain ⟨n, hkept⟩ := h.kept
  have htouch : touch s.glue a = s.glue := hkept.touch_eq (h.attached_of_inUse hinUse ha)
  rw [htouch] at hg
  rcases hg with rfl | rfl
  · exact { h with }
  · exact { h with kept := ⟨n, { hkept with }⟩ }

theorem kick (hinUse : inUse s c) (ha : s.satellite c = some a) : Owned (kick s a) := by
  refine h.use hinUse ha ?_
  split
  · exact .inr rfl
  · exact .inl rfl

theorem setSocketRing (hstage : s.stage a = .setting c) (hung : s.hungUp a = false) :
    Owned (setSocketRing s a c) := by
  obtain ⟨n, hkept⟩ := h.kept
  have hattached : s.glue.attached a = true :=
    (h.carried a (by simp [hstage, Stage.carried])).resolve_right (by simp [hung])
  refine ⟨⟨n, ?_⟩, h.hung, fun c' b hb => ?_, fun b hb => ?_⟩
  · rw [Commands.setSocketRing, hkept.touch_eq hattached]
    exact { hkept with }
  · simp only [Commands.setSocketRing, touch] at hb ⊢
    by_cases hc : c' = c
    · subst hc
      rw [update_self, Option.some.injEq] at hb
      subst hb
      exact ⟨by simp, .inl hattached⟩
    · rw [update_of_ne hc] at hb
      obtain ⟨hbound, hor⟩ := h.satellite c' b hb
      have hba : b ≠ a := by
        rintro rfl
        simp [hstage] at hbound
      exact ⟨by simpa [hba] using hbound, hor⟩
  · simp only [Commands.setSocketRing, touch] at hb ⊢
    by_cases hba : b = a
    · simp [hba, Stage.carried] at hb
    · rw [update_of_ne hba] at hb
      exact h.carried b hb

theorem arrive {stage : Stage} (hkept : ∃ n, Kept g n)
    (hattached : g.attached = update s.glue.attached a true)
    (hreleased : g.released = s.glue.released)
    (hnew : ¬ (s.glue.attached a = true ∨ s.hungUp a = true)) {satellite : Nat → Option Nat}
    (hsatellite : ∀ c b, satellite c = some b → s.satellite c = some b ∨ b = a ∧ stage = .bound c) :
    Owned { s with
      glue := g, satellite := satellite, stage := update s.stage a stage } where
  kept := hkept
  hung := fun b hb => by
    dsimp only
    rw [hreleased]
    exact h.hung b hb
  satellite := fun c b hb => by
    dsimp only
    rw [hattached]
    rcases hsatellite c b hb with hold | ⟨rfl, rfl⟩
    · obtain ⟨hbound, hor⟩ := h.satellite c b hold
      have hba : b ≠ a := fun hba => hnew (hba ▸ hor)
      exact ⟨by simpa [hba] using hbound, by simpa [hba] using hor⟩
    · exact ⟨by simp, .inl (by simp)⟩
  carried := fun b hb => by
    dsimp only at hb ⊢
    rw [hattached]
    by_cases hba : b = a
    · exact .inl (by simp [hba])
    · simp only [update_of_ne hba] at hb ⊢
      exact h.carried b hb

theorem openSocket (stream : Bool) (hunused : unused s.glue a = true) :
    Owned (openSocket s c a stream) := by
  obtain ⟨n, hkept⟩ := h.kept
  have hmade : Kept (Commands.openSocket s c a stream).glue n :=
    { hkept.make hunused stream true .close with }
  have harrive : Owned { s with
      glue := (Commands.openSocket s c a stream).glue
      satellite := update s.satellite c (some a)
      stage := update s.stage a (.bound c) } := by
    refine h.arrive ⟨n, hmade⟩ rfl rfl (h.unowned_of_unused hunused) fun c' b hb => ?_
    by_cases hc : c' = c
    · subst hc
      simp only [update_self, Option.some.injEq] at hb
      exact .inr ⟨hb.symm, rfl⟩
    · rw [update_of_ne hc] at hb
      exact .inl hb
  exact { harrive with }

theorem userOnAccept (posted : Bool) (hwaiting : waiting s.glue a = true) :
    Owned (userOnAccept s a posted) := by
  obtain ⟨n, hkept⟩ := h.kept
  exact h.arrive ⟨n, hkept.graft hwaiting⟩ rfl rfl (h.unowned_of_waiting hwaiting)
    fun c b hb => .inl hb

theorem lightAccept (index : Option Nat) (hstage : s.stage a = .ring) :
    Owned (lightAccept s a index) := by
  have hlive := h.carried a (by simp [hstage, Stage.carried])
  have hmove : ∀ stage, Owned { s with stage := update s.stage a stage } := by
    intro stage
    refine ⟨h.kept, h.hung, fun c b hb => ?_, fun b hb => ?_⟩
    · obtain ⟨hbound, hor⟩ := h.satellite c b hb
      have hba : b ≠ a := by
        rintro rfl
        simp [hstage] at hbound
      exact ⟨by simpa [hba] using hbound, hor⟩
    · by_cases hba : b = a
      · exact hba ▸ hlive
      · simp only [update_of_ne hba] at hb
        exact h.carried b hb
  cases index with
  | none => exact hmove .declining
  | some c =>
    exact { hmove (.setting c) with }

end

theorem onSatellite {f : Nat → State} (h : Owned s)
    (hf : ∀ a, s.glue.pc = .idle → s.satellite c = some a → Owned (f a))
    (hstep : onSatellite s c f = some t) : Owned t := by
  obtain ⟨hpc, rfl | ⟨a, ha, rfl⟩⟩ := of_onSatellite hstep
  · exact h
  · exact hf a hpc ha

theorem step {action : Action} (h : Owned s) (hguard : NotHungUp s action)
    (hstep : step s action = some t) : Owned t := by
  unfold Commands.step at hstep
  obtain ⟨-, hstep⟩ := Option.ite_none_left_eq_some.mp hstep
  cases action with
  | glue a =>
    obtain ⟨hinternal, hstep⟩ := Option.ite_none_right_eq_some.mp hstep
    obtain ⟨g, hg, rfl⟩ := Option.map_eq_some_iff.mp hstep
    exact h.glue hguard hinternal hg
  | openSocket c a stream =>
    obtain ⟨hcond, rfl⟩ := of_guard hstep
    exact h.openSocket stream hcond.2.2
  | userOnAccept a posted =>
    obtain ⟨hcond, rfl⟩ := of_guard hstep
    exact h.userOnAccept posted hcond.1
  | lightAccept a index =>
    obtain ⟨hcond, rfl⟩ := of_guard hstep
    exact h.lightAccept index hcond.1
  | setSocketRing a =>
    dsimp only at hstep
    split at hstep
    · rename_i c hstage
      obtain ⟨-, rfl⟩ := of_guard hstep
      exact h.setSocketRing hstage hguard
    · cases hstep
  | decline a dies =>
    obtain ⟨hcond, rfl⟩ := of_guard hstep
    exact h.decline hcond.1 hcond.2 hguard
  | close c dies => exact h.onSatellite (fun a hpc ha => h.closeIndex hpc hguard ha dies) hstep
  | shutdown c how dies =>
    refine h.onSatellite (fun a hpc ha => ?_) hstep
    split
    · obtain ⟨⟨n, hkept⟩, hung, hsatellite, hcarried⟩ := h.closeIndex hpc hguard ha dies
      exact ⟨⟨n, { hkept with }⟩, hung, hsatellite, hcarried⟩
    · exact h.use hguard ha (.inl rfl)
  | txKick | rxKick => exact h.onSatellite (fun a _ ha => h.kick hguard ha) hstep
  | fin a listener writeable =>
    obtain ⟨⟨-, hstate, hlistening⟩, rfl⟩ := of_guard hstep
    exact h.fin writeable hstate hlistening
  | reset a listener writeable =>
    obtain ⟨⟨-, hstate, -, hlistening⟩, rfl⟩ := of_guard hstep
    exact h.reset writeable hstate hlistening

end Owned

/-- In a run that keeps to `NotHungUp` every kernel socket is closed at most once, and not used
later. -/
theorem kernel_close_once {s : State} (hreach : system.ReachableUnder NotHungUp s) :
    (∀ a, s.glue.closes a ≤ 1) ∧ s.glue.staleSk = false ∧ s.glue.staleSocket = false := by
  have howned : Owned s := by
    refine TransitionSystem.ReachableUnder.invariant ?_ ?_ hreach
    · intro s hs
      exact Owned.start hs
    · intro s action t h hguard hstep
      exact h.step hguard hstep
  obtain ⟨n, hkept⟩ := howned.kept
  exact ⟨fun a => (hkept.counted a).once, hkept.clean⟩

def initial : State where
  glue := Glue.initial
  satellite := fun _ => none
  taken := fun _ => false
  stage := fun _ => .fresh
  signal := fun _ => 0
  hungUp := fun _ => false
  peerClosed := fun _ => false

theorem start_initial : Start initial :=
  ⟨Glue.start_initial, fun _ => rfl, fun _ => rfl, fun _ => rfl, fun _ => rfl, fun _ => rfl,
    fun _ => rfl⟩

instance (s : State) (action : Action) : Decidable (NotHungUp s action) := by
  unfold NotHungUp inUse
  split <;> infer_instance

def processOneClosed : List Action := List.replicate 5 (.glue (.rx false false))

theorem kernel_close_once_reset :
    ∃ s, system.ReachableUnder NotHungUp s ∧ s.hungUp 0 = true ∧ s.glue.closes 0 = 1 ∧
      (∀ a, s.glue.closes a ≤ 1) ∧ s.glue.staleSk = false ∧ s.glue.staleSocket = false := by
  obtain ⟨s, hreach, hung, hcloses⟩ :=
    system.exists_reachableUnder NotHungUp initial
      ([Action.openSocket 0 0 true, .glue (.tcp 0 .established), .reset 0 none false] ++
        processOneClosed)
      (P := fun s => s.hungUp 0 = true ∧ s.glue.closes 0 = 1) start_initial
      (by decide +kernel)
  exact ⟨s, hreach, hung, hcloses, kernel_close_once hreach⟩

theorem reset_connection_closed_twice :
    ∃ s, system.Reachable s ∧ s.glue.closes 0 = 2 ∧ s.glue.staleSk = true :=
  system.exists_reachable initial
    ([Action.openSocket 0 0 true, .glue (.tcp 0 .established), .reset 0 none false] ++
      processOneClosed ++ [Action.close 0 false]) start_initial (by decide +kernel)

end LightStack.Glue.Commands
