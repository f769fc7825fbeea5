import LightStack.Glue.Once

/-!
# The end of a connection before it is accepted

The signal is set for the index that `sk_user_data` points to, once `SET_SOCKET_RING` has set it.
-/

namespace LightStack.Glue.Commands

open Lib Function

def InTime (s : State) : Action → Prop
  | .glue a => ∀ b ∈ hangsUp s.glue a, (s.stage b).carried = false
  | .fin a _ _ => s.glue.attached a = true
  | .reset a _ _ => s.glue.attached a = true
  | _ => True

structure Heard (s : State) : Prop where
  flagged : Flagged s.glue.list s.glue.present
  free : ∀ c, s.taken c = false → s.satellite c = none
  data : ∀ a c, s.glue.userData a = some c → s.satellite c = some a ∧ s.taken c = true
  setting : ∀ a c, s.stage a = .setting c → s.satellite c = none ∧ s.taken c = true
  once : ∀ a b c, s.stage a = .setting c → s.stage b = .setting c → a = b
  state : ∀ a, s.peerClosed a = true → s.glue.state a ≠ .established
  peer : ∀ a, s.peerClosed a = true → s.glue.attached a = true ∨ s.glue.released a = true
  heard : ∀ a, s.peerClosed a = true → a ∈ s.glue.list .closed ∨
    (s.stage a).carried = false ∧ ∀ c, s.glue.userData a = some c → 3 ≤ s.signal c

variable {a c : Nat} {action : Glue.Action} {g : Glue.State}

namespace Heard

variable {s t : State}

theorem start (h : Start s) : Heard s where
  flagged := (Kept.start h.glue).flagged
  free := fun c _ => h.satellite_eq c
  data := fun a c ha => by simp [h.userData_eq] at ha
  setting := fun a c ha => by simp [h.stage_eq] at ha
  once := fun a b c ha => by simp [h.stage_eq] at ha
  state := fun a ha => by simp [h.peerClosed_eq] at ha
  peer := fun a ha => by simp [h.peerClosed_eq] at ha
  heard := fun a ha => by simp [h.peerClosed_eq] at ha

theorem data_inj (h : Heard s) {b : Nat} (ha : s.glue.userData a = some c)
    (hb : s.glue.userData b = some c) : a = b := by
  have hsame := (h.data a c ha).1.symm.trans (h.data b c hb).1
  exact Option.some.inj hsame

theorem not_peerClosed (h : Heard s) (hreleased : s.glue.released a = false)
    (hattached : s.glue.attached a = false) : s.peerClosed a = false := by
  by_contra hpeer
  rcases h.peer a (by simpa using hpeer) with ha | ha
  · simp [hattached] at ha
  · simp [hreleased] at ha

theorem not_peerClosed_of_unused (h : Heard s) (hunused : unused s.glue a = true) :
    s.peerClosed a = false := by
  simp only [unused, Bool.and_eq_true, Bool.not_eq_true'] at hunused
  exact h.not_peerClosed hunused.1.2 hunused.2

theorem not_peerClosed_of_waiting (h : Heard s) (hwaiting : waiting s.glue a = true) :
    s.peerClosed a = false := by
  simp only [waiting, Bool.and_eq_true, Bool.not_eq_true'] at hwaiting
  exact h.not_peerClosed hwaiting.1.2 hwaiting.2

omit t in
theorem setting_of_update {x : Stage} {b : Nat} (hx : ∀ c, x ≠ .setting c)
    (hb : update s.stage a x b = .setting c) : b ≠ a ∧ s.stage b = .setting c :=
  of_update_eq hb (hx c)

theorem ne_of_peerClosed {b : Nat} (hnew : s.peerClosed a = false) (hb : s.peerClosed b = true) :
    b ≠ a := by
  rintro rfl
  simp [hnew] at hb

section

variable (h : Heard s) (hfree : s.taken c = false) {b c' : Nat}

include h hfree

theorem data_ne (hb : s.glue.userData b = some c') : c' ≠ c := by
  rintro rfl
  simp [(h.data b c' hb).2] at hfree

theorem setting_ne (hb : s.stage b = .setting c') : c' ≠ c := by
  rintro rfl
  simp [(h.setting b c' hb).2] at hfree

end

theorem keep (h : Heard s) (hsatellite : t.satellite = s.satellite) (htaken : t.taken = s.taken)
    (hstage : t.stage = s.stage) (hflagged : Flagged t.glue.list t.glue.present)
    (hdata : ∀ a c, t.glue.userData a = some c → s.glue.userData a = some c)
    (hstate : ∀ a, t.peerClosed a = true → t.glue.state a ≠ .established)
    (hpeer : ∀ a, t.peerClosed a = true → t.glue.attached a = true ∨ t.glue.released a = true)
    (hheard : ∀ a, t.peerClosed a = true → a ∈ t.glue.list .closed ∨
      (s.stage a).carried = false ∧ ∀ c, t.glue.userData a = some c → 3 ≤ t.signal c) :
    Heard t where
  flagged := hflagged
  free := by
    rw [hsatellite, htaken]
    exact h.free
  data := fun a c ha => by
    rw [hsatellite, htaken]
    exact h.data a c (hdata a c ha)
  setting := fun a c ha => by
    rw [hstage] at ha
    rw [hsatellite, htaken]
    exact h.setting a c ha
  once := fun a b c => by
    rw [hstage]
    exact h.once a b c
  state := hstate
  peer := hpeer
  heard := fun a ha => by
    rw [hstage]
    exact hheard a ha

/-! ## Steps of the glue -/

theorem signal_connects (h : Heard s) (hpeer : s.peerClosed a = true)
    (ha : s.glue.userData a = some c) :
    setSignal s.signal (connects s.glue action) 2 c = s.signal c := by
  cases hconnects : connects s.glue action with
  | none => rfl
  | some c' =>
    have hne : c ≠ c' := by
      rintro rfl
      unfold connects at hconnects
      split at hconnects
      · rename_i b _
        split at hconnects
        · rename_i hcond
          obtain rfl := h.data_inj ha hconnects
          exact h.state a hpeer hcond.1
        · cases hconnects
      · cases hconnects
    simp [setSignal, hne]

theorem signal_fatal {b : Nat} (ha : s.glue.userData a = some c)
    (hheard : a ≠ b → 3 ≤ s.signal c) : 3 ≤ (userOnSocketFatal s b).signal c := by
  unfold userOnSocketFatal
  dsimp only
  cases hdata : s.glue.userData b with
  | none =>
    have hab : a ≠ b := by
      rintro rfl
      simp [ha] at hdata
    exact hheard hab
  | some c' =>
    by_cases hc : c = c'
    · subst hc
      simp only [setSignal, update_self]
      split <;> omega
    · have hab : a ≠ b := by
        rintro rfl
        exact hc (Option.some.inj (ha.symm.trans hdata))
      simpa [setSignal, hc] using hheard hab

theorem keepGlue (h : Heard s) (hflagged : Flagged g.list g.present)
    (hdata : ∀ a c, g.userData a = some c → s.glue.userData a = some c)
    (hstate : ∀ a, s.peerClosed a = true → g.state a ≠ .established)
    (hpeer : ∀ a, s.peerClosed a = true → g.attached a = true ∨ g.released a = true)
    (hheard : ∀ a, s.peerClosed a = true → a ∈ g.list .closed ∨
      (s.stage a).carried = false ∧
        ∀ c, g.userData a = some c → 3 ≤ (notify s action).signal c) :
    Heard { notify s action with glue := g } := by
  refine h.keep (notify_satellite s action) (notify_taken s action) (notify_stage s action)
    hflagged hdata ?_ ?_ ?_ <;> dsimp only <;> rw [notify_peerClosed]
  · exact hstate
  · exact hpeer
  · exact hheard

theorem glue (h : Heard s) (hguard : InTime s (.glue action)) (hinternal : internal s action = true)
    (hstep : Glue.step s.glue action = some g) : Heard { notify s action with glue := g } := by
  have hold : hangsUp s.glue action = none → ∀ a, s.peerClosed a = true →
      ∀ c, s.glue.userData a = some c → 3 ≤ s.signal c → 3 ≤ (notify s action).signal c := by
    intro hangs a ha c hc hsignal
    rw [notify_of_none hangs]
    dsimp only
    rw [h.signal_connects ha hc]
    exact hsignal
  cases effect_of_step hinternal hstep with
  | same hangs hsame =>
    refine h.keepGlue (hsame.flagged h.flagged) (fun a c hc => ?_) (fun a ha => ?_)
      (fun a ha => ?_) fun a ha => ?_
    · rwa [hsame.userData] at hc
    · rw [hsame.state]
      exact h.state a ha
    · rw [hsame.attached, hsame.released]
      exact h.peer a ha
    · rw [hsame.userData]
      refine (h.heard a ha).imp (hsame.closed a) fun hright => ⟨hright.1, fun c hc => ?_⟩
      exact hold hangs a ha c hc (hright.2 c hc)
  | hangs b hangs hends hdata =>
    refine h.keepGlue (hends.flagged h.flagged) (fun a c hc => ?_) (fun a ha => ?_)
      (fun a ha => ?_) fun a ha => ?_
    · rwa [hdata] at hc
    · by_cases hab : a = b
      · exact hab ▸ hends.state
      · rw [hends.state_ne a hab]
        exact h.state a ha
    · rw [hends.attached, hends.released]
      by_cases hab : a = b
      · subst hab
        have hor := h.peer a ha
        simpa [or_comm] using hor
      · simpa [hab] using h.peer a ha
    · rw [hdata, notify_of_some hangs]
      by_cases hab : a = b
      · subst hab
        exact .inr ⟨hguard a hangs, fun c hc => signal_fatal hc fun hne => absurd rfl hne⟩
      · refine (h.heard a ha).imp (hends.closed a hab) fun hright => ⟨hright.1, fun c hc => ?_⟩
        exact signal_fatal hc fun _ => hright.2 c hc
  | child b hangs _ hunused heq =>
    have hnew := h.not_peerClosed_of_unused hunused
    have hne : ∀ a, s.peerClosed a = true → a ≠ b := fun _ => ne_of_peerClosed hnew
    subst heq
    refine h.keepGlue h.flagged (fun a c hc => ?_) (fun a ha => ?_) (fun a ha => ?_) fun a ha => ?_
    · exact (of_update_eq hc (by simp)).2
    · simpa [make, hne a ha] using h.state a ha
    · simpa [make, hne a ha] using h.peer a ha
    · refine (h.heard a ha).imp id fun hright => ⟨hright.1, fun c hc => ?_⟩
      simp only [make, update_of_ne (hne a ha)] at hc
      exact hold hangs a ha c hc (hright.2 c hc)
  | tcp b state hangs _ hpeer heq =>
    subst heq
    refine h.keepGlue h.flagged (fun a c hc => hc) (fun a ha => ?_) h.peer fun a ha => ?_
    · by_cases hab : a = b
      · subst hab
        intro hstate
        simp only [setState, update_self] at hstate
        simp [hpeer hstate] at ha
      · simpa [setState, hab] using h.state a ha
    · refine (h.heard a ha).imp id fun hright => ⟨hright.1, fun c hc => ?_⟩
      exact hold hangs a ha c hc (hright.2 c hc)
  | discard b dies hangs _ hwaiting heq =>
    have hnew := h.not_peerClosed_of_waiting hwaiting
    have hne : ∀ a, s.peerClosed a = true → a ≠ b := fun _ => ne_of_peerClosed hnew
    have hends : Ends (graft s.glue b) g b := heq ▸ kernelClose_ends
    have hdata : g.userData = update s.glue.userData b none := by
      rw [heq]
      rfl
    refine h.keepGlue (hends.flagged h.flagged) (fun a c hc => ?_) (fun a ha => ?_)
      (fun a ha => ?_) fun a ha => ?_
    · rw [hdata] at hc
      exact (of_update_eq hc (by simp)).2
    · rw [hends.state_ne a (hne a ha)]
      exact h.state a ha
    · rw [hends.attached, hends.released]
      simpa [graft, hne a ha] using h.peer a ha
    · refine (h.heard a ha).imp (hends.closed a (hne a ha)) fun hright => ⟨hright.1, fun c hc => ?_⟩
      rw [hdata, update_of_ne (hne a ha)] at hc
      exact hold hangs a ha c hc (hright.2 c hc)

theorem mem_closed_wakeup {listener : Option Nat} {writeable : Bool}
    (hflagged : Flagged g.list g.present) (hattached : g.attached a = true)
    (hstate : g.state a = .closeWait ∨ g.state a = .close) :
    a ∈ (appGlueSockWakeup g a listener writeable).list .closed := by
  have hlookup : Same g (lookupListener g listener) := .lookup listener
  have hattached' : (lookupListener g listener).attached a = true := by
    rw [hlookup.attached]
    exact hattached
  have hmem : (lookupListener g listener).present .closed a = true →
      a ∈ (lookupListener g listener).list .closed :=
    ((hlookup.flagged hflagged).present_iff .closed a).mp
  have hwakeup : appGlueSockWakeup g a listener writeable =
      if (lookupListener g listener).present .closed a then lookupListener g listener
      else insert (lookupListener g listener) .closed a := by
    rw [← hlookup.state] at hstate
    unfold appGlueSockWakeup
    rcases hstate with hstate | hstate <;> cases listener <;> simp [hstate, hattached']
  rw [hwakeup]
  split
  · rename_i hpresent
    exact hmem hpresent
  · simp [insert, setReady]

theorem ends (h : Heard s) {state : TcpState}
    {listener : Option Nat} {writeable : Bool} (hsame : Same s.glue g)
    (hattached : s.glue.attached a = true) (hstate : state = .closeWait ∨ state = .close) :
    Heard { s with
      glue := appGlueSockWakeup (setState g a state) a listener writeable
      peerClosed := update s.peerClosed a true } := by
  have hwakeup : Same (setState g a state)
      (appGlueSockWakeup (setState g a state) a listener writeable) := .wakeup listener writeable
  have hflagged : Flagged (setState g a state).list (setState g a state).present :=
    hsame.flagged h.flagged
  have hold : ∀ b, b ≠ a → update s.peerClosed a true b = true → s.peerClosed b = true :=
    fun b hb hpeer => by simpa [hb] using hpeer
  have hdata : (appGlueSockWakeup (setState g a state) a listener writeable).userData =
      s.glue.userData := hwakeup.userData.trans hsame.userData
  refine h.keep rfl rfl rfl (hwakeup.flagged hflagged) (fun b c hc => hdata ▸ hc)
    (fun b hb => ?_) (fun b hb => ?_) fun b hb => ?_
  · rw [hwakeup.state]
    by_cases hba : b = a
    · subst hba
      simp only [setState, update_self]
      rcases hstate with rfl | rfl <;> simp
    · simp only [setState, update_of_ne hba, hsame.state]
      exact h.state b (hold b hba hb)
  · rw [hwakeup.attached, hwakeup.released]
    by_cases hba : b = a
    · subst hba
      exact .inl (by simpa [setState, hsame.attached] using hattached)
    · simpa [setState, hsame.attached, hsame.released] using h.peer b (hold b hba hb)
  · by_cases hba : b = a
    · subst hba
      refine .inl (mem_closed_wakeup hflagged ?_ ?_)
      · simpa [setState, hsame.attached] using hattached
      · simpa [setState] using hstate
    · refine (h.heard b (hold b hba hb)).imp (fun hmem => ?_) fun hright => ?_
      · exact hwakeup.closed b (hsame.closed b hmem)
      · rw [hdata]
        exact hright

/-! ## Commands -/

section

variable (h : Heard s)

include h

theorem close {dies : Bool} {satellite : Nat → Option Nat} {taken : Nat → Bool}
    (hfree : ∀ c, taken c = false → satellite c = none)
    (hindex : ∀ b c, b ≠ a → s.glue.userData b = some c →
      satellite c = s.satellite c ∧ taken c = s.taken c)
    (hsetting : ∀ b c, b ≠ a → s.stage b = .setting c →
      satellite c = s.satellite c ∧ taken c = s.taken c) :
    Heard { closeKernelSocket s a dies with satellite := satellite, taken := taken } := by
  have hends : Ends s.glue (closeKernelSocket s a dies).glue a := by
    have hclose : Ends (touch s.glue a) (closeKernelSocket s a dies).glue a := close_ends
    exact hclose.of_prepared rfl rfl rfl (fun _ _ hmem => hmem) id
  have hdata : (closeKernelSocket s a dies).glue.userData =
      update s.glue.userData a none := close_userData
  have hstage : (closeKernelSocket s a dies).stage = update s.stage a .gone := rfl
  constructor
  · exact hends.flagged h.flagged
  · exact hfree
  · intro b c hc
    dsimp only at hc ⊢
    rw [hdata] at hc
    obtain ⟨hba, hc⟩ := of_update_eq hc (by simp)
    obtain ⟨hsat, htaken⟩ := hindex b c hba hc
    rw [hsat, htaken]
    exact h.data b c hc
  · intro b c hb
    dsimp only at hb ⊢
    rw [hstage] at hb
    obtain ⟨hba, hb⟩ := setting_of_update (by simp) hb
    obtain ⟨hsat, htaken⟩ := hsetting b c hba hb
    rw [hsat, htaken]
    exact h.setting b c hb
  · intro b b' c hb hb'
    exact h.once b b' c (setting_of_update (by simp) hb).2 (setting_of_update (by simp) hb').2
  · intro b hb
    by_cases hba : b = a
    · exact hba ▸ hends.state
    · rw [hends.state_ne b hba]
      exact h.state b hb
  · intro b hb
    dsimp only
    rw [hends.attached, hends.released]
    by_cases hba : b = a
    · subst hba
      simpa [or_comm] using h.peer b hb
    · simpa [hba] using h.peer b hb
  · intro b hb
    dsimp only
    rw [hdata, hstage]
    by_cases hba : b = a
    · exact .inr ⟨by simp [hba, Stage.carried], fun c hc => by simp [hba] at hc⟩
    · simp only [update_of_ne hba]
      exact (h.heard b hb).imp_left (hends.closed b hba)

theorem closeIndex (dies : Bool) (ha : s.satellite c = some a) : Heard (closeIndex s c a dies) := by
  refine h.close (fun c' hc => ?_) (fun b c' hba hc => ?_) fun b c' _ hb => ?_
  · by_cases hne : c' = c
    · simp [hne]
    · rw [update_of_ne hne] at hc ⊢
      exact h.free c' hc
  · have hne : c' ≠ c := by
      rintro rfl
      exact hba (Option.some.inj ((h.data b c' hc).1.symm.trans ha))
    exact ⟨update_of_ne hne .., update_of_ne hne ..⟩
  · have hne : c' ≠ c := by
      rintro rfl
      simp [(h.setting b c' hb).1] at ha
    exact ⟨update_of_ne hne .., update_of_ne hne ..⟩

theorem of_glue (hsame : Same s.glue g) : Heard { s with glue := g } := by
  refine h.keep rfl rfl rfl (hsame.flagged h.flagged) (fun a c hc => ?_) (fun a ha => ?_)
    (fun a ha => ?_) fun a ha => ?_
  · rwa [hsame.userData] at hc
  · rw [hsame.state]
    exact h.state a ha
  · rw [hsame.attached, hsame.released]
    exact h.peer a ha
  · dsimp only
    rw [hsame.userData]
    exact (h.heard a ha).imp_left (hsame.closed a)

theorem kick : Heard (kick s a) := by
  refine h.of_glue ?_
  split <;> exact ⟨rfl, rfl, rfl, rfl, fun _ h => h, id⟩

theorem setSocketRing (hstage : s.stage a = .setting c) : Heard (setSocketRing s a c) := by
  obtain ⟨hsatellite, htaken⟩ := h.setting a c hstage
  have hother : ∀ b c', b ≠ a → s.glue.userData b = some c' → c' ≠ c := by
    rintro b c' - hb rfl
    simp [(h.data b c' hb).1] at hsatellite
  refine { h with free := ?_, data := ?_, setting := ?_, once := ?_, heard := ?_ }
  · intro c' hc
    simp only [Commands.setSocketRing] at hc ⊢
    have hne : c' ≠ c := by
      rintro rfl
      simp [htaken] at hc
    rw [update_of_ne hne]
    exact h.free c' hc
  · intro b c' hb
    simp only [Commands.setSocketRing, touch] at hb ⊢
    by_cases hba : b = a
    · subst hba
      rw [update_self, Option.some.injEq] at hb
      subst hb
      exact ⟨by simp, htaken⟩
    · rw [update_of_ne hba] at hb
      rw [update_of_ne (hother b c' hba hb)]
      exact h.data b c' hb
  · intro b c' hb
    simp only [Commands.setSocketRing] at hb ⊢
    obtain ⟨hba, hold⟩ := setting_of_update (by simp) hb
    have hne : c' ≠ c := by
      rintro rfl
      exact hba (h.once b a c' hold hstage)
    rw [update_of_ne hne]
    exact h.setting b c' hold
  · intro b b' c' hb hb'
    exact h.once b b' c' (setting_of_update (by simp) hb).2 (setting_of_update (by simp) hb').2
  · intro b hb
    simp only [Commands.setSocketRing, touch]
    by_cases hba : b = a
    · subst hba
      refine .inl ((h.heard b hb).resolve_right fun hright => ?_)
      simp [hstage, Stage.carried] at hright
    · simp only [update_of_ne hba]
      exact h.heard b hb

theorem openSocket (stream : Bool) (hfree : s.taken c = false) (hunused : unused s.glue a = true) :
    Heard (openSocket s c a stream) := by
  have hnew := h.not_peerClosed_of_unused hunused
  have hne : ∀ b, s.peerClosed b = true → b ≠ a := fun _ => ne_of_peerClosed hnew
  refine ⟨h.flagged, ?_, ?_, ?_, ?_, ?_, ?_, ?_⟩
  · intro c' hc
    obtain ⟨hne, hc⟩ := of_update_eq hc (by simp)
    simp only [Commands.openSocket, update_of_ne hne]
    exact h.free c' hc
  · intro b c' hb
    simp only [Commands.openSocket, make] at hb ⊢
    by_cases hba : b = a
    · subst hba
      rw [update_self, Option.some.injEq] at hb
      subst hb
      exact ⟨by simp, by simp⟩
    · simp only [update_of_ne hba] at hb
      simp only [update_of_ne (h.data_ne hfree hb)]
      exact h.data b c' hb
  · intro b c' hb
    have hold := (setting_of_update (by simp) hb).2
    simp only [Commands.openSocket, update_of_ne (h.setting_ne hfree hold)]
    exact h.setting b c' hold
  · intro b b' c' hb hb'
    exact h.once b b' c' (setting_of_update (by simp) hb).2 (setting_of_update (by simp) hb').2
  · intro b hb
    simpa [Commands.openSocket, make, hne b hb] using h.state b hb
  · intro b hb
    simpa [Commands.openSocket, make, hne b hb] using h.peer b hb
  · intro b hb
    simp only [Commands.openSocket, make, update_of_ne (hne b hb)]
    refine (h.heard b hb).imp_right fun hright => ⟨hright.1, fun c' hc => ?_⟩
    rw [update_of_ne (h.data_ne hfree hc)]
    exact hright.2 c' hc

theorem userOnAccept (posted : Bool) (hwaiting : waiting s.glue a = true) :
    Heard (userOnAccept s a posted) := by
  have hnew := h.not_peerClosed_of_waiting hwaiting
  have hne : ∀ b, s.peerClosed b = true → b ≠ a := fun _ => ne_of_peerClosed hnew
  have hstage : ∀ b c, (Commands.userOnAccept s a posted).stage b = .setting c →
      s.stage b = .setting c :=
    fun b c hb => (setting_of_update (by cases posted <;> simp) hb).2
  refine { h with data := ?_, setting := ?_, once := ?_, peer := ?_, heard := ?_ }
  · exact fun b c hb => h.data b c (of_update_eq hb (by simp)).2
  · exact fun b c hb => h.setting b c (hstage b c hb)
  · exact fun b b' c hb hb' => h.once b b' c (hstage b c hb) (hstage b' c hb')
  · intro b hb
    simpa [Commands.userOnAccept, graft, hne b hb] using h.peer b hb
  · intro b hb
    simpa [Commands.userOnAccept, graft, hne b hb] using h.heard b hb

theorem lightAccept {index : Option Nat} (hstage : s.stage a = .ring)
    (hfree : ∀ c ∈ index, s.taken c = false) : Heard (lightAccept s a index) := by
  -- an end that was not heard of yet stays on the list
  have hheard : ∀ b, s.peerClosed b = true → b ∈ s.glue.list .closed ∨
      b ≠ a ∧ (s.stage b).carried = false ∧ ∀ c, s.glue.userData b = some c → 3 ≤ s.signal c := by
    intro b hb
    refine (h.heard b hb).imp_right fun hright => ⟨?_, hright⟩
    rintro rfl
    simp [hstage, Stage.carried] at hright
  cases index with
  | none =>
    refine { h with setting := ?_, once := ?_, heard := ?_ }
    · exact fun b c hb => h.setting b c (setting_of_update (by simp) hb).2
    · exact fun b b' c hb hb' =>
        h.once b b' c (setting_of_update (by simp) hb).2 (setting_of_update (by simp) hb').2
    · refine fun b hb => (hheard b hb).imp_right fun hright => ?_
      simpa [Commands.lightAccept, hright.1] using hright.2
  | some c =>
    have hfree := hfree c rfl
    refine { h with free := ?_, data := ?_, setting := ?_, once := ?_, heard := ?_ }
    · exact fun c' hc => h.free c' (of_update_eq hc (by simp)).2
    · intro b c' hb
      simp only [Commands.lightAccept]
      rw [update_of_ne (h.data_ne hfree hb)]
      exact h.data b c' hb
    · intro b c' hb
      simp only [Commands.lightAccept] at hb ⊢
      by_cases hba : b = a
      · subst hba
        rw [update_self] at hb
        injection hb with hb
        subst hb
        exact ⟨h.free c hfree, by simp⟩
      · rw [update_of_ne hba] at hb
        rw [update_of_ne (h.setting_ne hfree hb)]
        exact h.setting b c' hb
    · intro b b' c' hb hb'
      simp only [Commands.lightAccept] at hb hb'
      by_cases hba : b = a <;> by_cases hba' : b' = a
      · rw [hba, hba']
      · subst hba
        rw [update_self] at hb
        injection hb with hb
        subst hb
        rw [update_of_ne hba'] at hb'
        exact absurd rfl (h.setting_ne hfree hb')
      · subst hba'
        rw [update_self] at hb'
        injection hb' with hb'
        subst hb'
        rw [update_of_ne hba] at hb
        exact absurd rfl (h.setting_ne hfree hb)
      · rw [update_of_ne hba] at hb
        rw [update_of_ne hba'] at hb'
        exact h.once b b' c' hb hb'
    · intro b hb
      refine (hheard b hb).imp_right fun hright => ?_
      simp only [Commands.lightAccept, update_of_ne hright.1]
      refine ⟨hright.2.1, fun c' hc => ?_⟩
      rw [update_of_ne (h.data_ne hfree hc)]
      exact hright.2.2 c' hc

end

theorem onSatellite {f : Nat → State} (h : Heard s) (hf : ∀ a, s.satellite c = some a → Heard (f a))
    (hstep : onSatellite s c f = some t) : Heard t := by
  obtain ⟨-, rfl | ⟨a, ha, rfl⟩⟩ := of_onSatellite hstep
  · exact h
  · exact hf a ha

theorem step {action : Action} (h : Heard s) (hguard : InTime s action)
    (hstep : step s action = some t) : Heard t := by
  unfold Commands.step at hstep
  obtain ⟨-, hstep⟩ := Option.ite_none_left_eq_some.mp hstep
  cases action with
  | glue a =>
    obtain ⟨hinternal, hstep⟩ := Option.ite_none_right_eq_some.mp hstep
    obtain ⟨g, hg, rfl⟩ := Option.map_eq_some_iff.mp hstep
    exact h.glue hguard hinternal hg
  | openSocket c a stream =>
    obtain ⟨hcond, rfl⟩ := of_guard hstep
    exact h.openSocket stream hcond.2.1 hcond.2.2
  | userOnAccept a posted =>
    obtain ⟨hcond, rfl⟩ := of_guard hstep
    exact h.userOnAccept posted hcond.1
  | lightAccept a index =>
    obtain ⟨hcond, rfl⟩ := of_guard hstep
    exact h.lightAccept hcond.1 hcond.2
  | setSocketRing a =>
    dsimp only at hstep
    split at hstep
    · rename_i c hstage
      obtain ⟨-, rfl⟩ := of_guard hstep
      exact h.setSocketRing hstage
    · cases hstep
  | decline a dies =>
    obtain ⟨-, rfl⟩ := of_guard hstep
    exact h.close h.free (fun _ _ _ _ => ⟨rfl, rfl⟩) fun _ _ _ _ => ⟨rfl, rfl⟩
  | close c dies => exact h.onSatellite (fun a ha => h.closeIndex dies ha) hstep
  | shutdown c how dies =>
    refine h.onSatellite (fun a ha => ?_) hstep
    split
    · exact (h.closeIndex dies ha).of_glue ⟨rfl, rfl, rfl, rfl, fun _ hmem => hmem, id⟩
    · exact h.of_glue ⟨rfl, rfl, rfl, rfl, fun _ hmem => hmem, id⟩
  | txKick | rxKick => exact h.onSatellite (fun a _ => h.kick) hstep
  | fin a listener writeable =>
    obtain ⟨-, rfl⟩ := of_guard hstep
    exact h.ends (.refl s.glue) hguard (.inl rfl)
  | reset a listener writeable =>
    obtain ⟨-, rfl⟩ := of_guard hstep
    exact h.ends .errorReport hguard (.inr rfl)

end Heard

/-- The socket `a` was given to index `c`, its peer has closed, and the list was worked off. -/
theorem peer_closure_signalled {s : State} (hreach : system.ReachableUnder InTime s)
    {a c : Nat} (hdata : s.glue.userData a = some c) (hpeer : s.peerClosed a = true)
    (hdone : s.glue.list .closed = []) : 3 ≤ s.signal c := by
  have hheard : Heard s := by
    refine TransitionSystem.ReachableUnder.invariant ?_ ?_ hreach
    · intro s hs
      exact Heard.start hs
    · intro s action t h hguard hstep
      exact h.step hguard hstep
  rcases hheard.heard a hpeer with hmem | hright
  · simp [hdone] at hmem
  · exact hright.2 c hdata

instance (s : State) (action : Action) : Decidable (InTime s action) := by
  cases_type Action <;> dsimp only [InTime] <;> infer_instance

def arrives : List Action :=
  [.openSocket 0 0 true, .glue (.tcp 0 .listen), .glue (.child 1), .glue (.wakeup 1 (some 0) false)]

def accepts : List Action :=
  [Action.glue (.rx false false), .glue (.rx false false), .userOnAccept 1 true] ++
    List.replicate 3 (.glue (.rx false false))

theorem peer_closure_signalled_in_time :
    ∃ s, system.ReachableUnder InTime s ∧ s.glue.userData 1 = some 1 ∧
      s.peerClosed 1 = true ∧ s.glue.list .closed = [] ∧ 3 ≤ s.signal 1 := by
  obtain ⟨s, hreach, hdata, hpeer, hdone⟩ :=
    system.exists_reachableUnder InTime initial (arrives ++ accepts ++
        [Action.lightAccept 1 (some 1), .fin 1 (some 0) false, .setSocketRing 1] ++
          processOneClosed)
      (P := fun s => s.glue.userData 1 = some 1 ∧ s.peerClosed 1 = true ∧
        s.glue.list .closed = []) start_initial (by decide +kernel)
  exact ⟨s, hreach, hdata, hpeer, hdone, peer_closure_signalled hreach hdata hpeer hdone⟩

theorem early_fin_lost :
    ∃ s, system.Reachable s ∧ s.glue.userData 1 = some 1 ∧ s.satellite 1 = some 1 ∧
      s.peerClosed 1 = true ∧ s.glue.pc = .idle ∧ s.glue.list .closed = [] ∧ s.signal 1 = 0 :=
  system.exists_reachable initial (arrives ++ [Action.fin 1 (some 0) false] ++ accepts ++
      [Action.lightAccept 1 (some 1), .setSocketRing 1]) start_initial (by decide +kernel)

end LightStack.Glue.Commands
