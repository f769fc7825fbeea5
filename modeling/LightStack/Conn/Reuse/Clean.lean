import LightStack.Conn.Reuse.Tended

/-!
# A handed out index is clean
-/

namespace LightStack.Conn.Reuse

open Lib List
open Function (update update_self update_of_ne)

/-! ## Calls that change a slot -/

variable {f : Slot → Slot} {c : Nat} {cmd : Command} {pending : List (Nat × Command)}
  {t : Conn.State}

namespace Tended

variable {s : State} (h : Tended s)

include h

theorem of_slots {slots : Nat → Slot}
    (hflag : ∀ c, (slots c).writeDone = true → (s.slots c).writeDone = true)
    (hpresented : ∀ c, (slots c).presentedInChain = (s.slots c).presentedInChain)
    (hfits : ∀ c, Fits s.conn c (slots c)) : Tended { s with slots := slots } :=
  { h with
    flagged := fun c hc => h.flagged c (hflag c hc)
    presented := fun c => (hpresented c).trans (h.presented c)
    fits := hfits }

theorem of_mapSlots (cs : List Nat) (hflag : ∀ x, (f x).writeDone = true → x.writeDone = true)
    (hpresented : ∀ x, (f x).presentedInChain = x.presentedInChain)
    (hfits : ∀ c ∈ cs, Fits s.conn c (f (s.slots c))) :
    Tended { s with slots := mapSlots cs f s.slots } := by
  refine h.of_slots (fun c => ?_) (fun c => ?_) fun c => ?_
  all_goals
    unfold mapSlots
    split
  · exact hflag _
  · exact id
  · exact hpresented _
  · rfl
  · exact hfits c ‹_›
  · exact h.fits c

theorem of_shrinks (hf : Shrinks f) (cs : List Nat) :
    Tended { s with slots := mapSlots cs f s.slots } :=
  h.of_mapSlots cs hf.writeDone hf.presented fun c _ => (h.fits c).shrink hf

theorem of_privates {privates : Nat → Private} (hstored : ∀ c, (privates c).stored = none) :
    Tended { s with privates := privates } :=
  { h with stored := hstored }

theorem of_owned (cs : List Nat) (howned : ∀ c ∈ cs, c ∈ owned s.conn)
    (huntouched : ∀ x, Untouched x → Untouched (f x))
    (hflag : ∀ x, (f x).writeDone = true → x.writeDone = true)
    (hpresented : ∀ x, (f x).presentedInChain = x.presentedInChain) :
    Tended { s with slots := mapSlots cs f s.slots } := by
  refine h.of_mapSlots cs hflag hpresented fun c hc => ?_
  exact fits_of_owned h.conn (howned c hc) fun hinit hkernel =>
    huntouched _ ((h.fits c).untold (howned c hc) hinit hkernel)

variable {m : Nat} (hcallable : callable s m = true)

include hcallable

omit h in
theorem idle_of_callable : s.conn.call = .idle ∧ m ∈ s.conn.descriptors := by
  simp only [callable, Conn.ready, Bool.and_eq_true, decide_eq_true_eq] at hcallable
  exact ⟨hcallable.1.2, hcallable.2⟩

omit h in
theorem owned_of_targets (hc : c ∈ targets s.conn m) : c ∈ owned s.conn := by
  obtain ⟨hidle, hm⟩ := idle_of_callable hcallable
  refine Partition.mem_owned_of_descriptor hm ?_
  rw [bundle_of_idle hidle]
  exact hc

omit h hcallable in
theorem copyOn_mem_targets {k : Nat} (hk : k < s.conn.numProcs) :
    copyOn s.conn m k ∈ targets s.conn m := by
  unfold copyOn targets
  split
  · exact mem_map_of_mem (mem_range.mpr hk)
  · exact mem_singleton.mpr rfl

theorem setNonblock (on : Bool) : Tended (setNonblock s m on) :=
  h.of_owned _ (fun _ => owned_of_targets hcallable)
    (fun _ hx => ⟨hx.connectCloseSignal, hx.txRing, hx.rxRing, hx.timeouts⟩)
    (fun _ hx => hx) fun _ => rfl

theorem lightSetsockopt {opt : SockOpt} {posted : Nat}
    (htold : (s.conn.sockets m).isMulticore = true ∨ (s.conn.locals m).isInit = true) :
    Tended (lightSetsockopt s m opt posted) := by
  have hnot : (!(s.conn.sockets m).isMulticore && !(s.conn.locals m).isInit) = false := by
    rcases htold with htold | htold <;> simp [htold]
  simp only [Reuse.lightSetsockopt, hnot, Bool.false_eq_true, if_false]
  refine h.of_mapSlots _ ?_ ?_ ?_
  · intro x
    unfold applyOpt
    split <;> exact id
  · intro x
    unfold applyOpt
    split <;> rfl
  · intro c hc
    obtain ⟨hc, hinit⟩ := mem_filter.mp (mem_of_mem_take hc)
    exact fits_of_init h.conn (owned_of_targets hcallable hc) hinit

theorem epollAdd {k e : Nat} {allocated : Bool} (hk : k < s.conn.numProcs) :
    Tended (epollAdd s m k e allocated) := by
  refine h.of_owned _ ?_ ?_ ?_ ?_
  · intro c hc
    rw [mem_singleton.mp hc]
    exact owned_of_targets hcallable (copyOn_mem_targets hk)
  · intro x hx
    split
    · exact ⟨hx.connectCloseSignal, hx.txRing, hx.rxRing, hx.timeouts⟩
    · exact hx
  · intro x
    split <;> exact id
  · intro x
    split <;> rfl

omit hcallable in
theorem lightRecv (n used : Nat) : Tended (lightRecv s m n used) := by
  refine (h.of_shrinks (.dropRx n) [realSocket s.conn m]).of_privates fun c => ?_
  by_cases hc : c = realSocket s.conn m
  · rw [hc, update_self]
    exact h.stored _
  · rw [update_of_ne hc]
    exact h.stored c

theorem kick (hinit : (s.conn.locals m).isInit = true) :
    Tended { s with ring := s.ring ++ [((s.conn.locals m).procId, .txKick m)] } := by
  obtain ⟨-, hm⟩ := idle_of_callable hcallable
  refine { h with pending := ?_, order := ?_, home := ?_, flagged := ?_ }
  · rw [Mailbox.select_append, ← h.pending]
    exact (append_nil _).symm
  · refine pairwise_append.mpr ⟨h.order, pairwise_singleton .., ?_⟩
    intro x hx y hy c
    rw [mem_singleton.mp hy]
    refine ⟨fun heq hclose => ?_, by simp⟩
    obtain rfl := Entry.txKick.inj heq
    refine h.conn.not_releases_of_owned (h.conn.descriptor_mem_owned hm)
      (releases_of_close (k := x.1) (h.mem_pending.mpr ?_))
    rw [← hclose]
    exact hx
  · intro k c hkick
    rcases mem_append.mp hkick with hkick | hkick
    · exact h.home k c hkick
    · obtain ⟨rfl, heq⟩ := Prod.mk.inj (mem_singleton.mp hkick)
      obtain rfl := Entry.txKick.inj heq
      exact .inl ⟨hm, hinit, rfl⟩
  · intro c hc
    obtain ⟨k, hkick⟩ := h.flagged c hc
    exact ⟨k, mem_append_left _ hkick⟩

theorem lightSend {mbufs : List Nat} {kicked : Bool} (hinit : (s.conn.locals m).isInit = true)
    (hkicked : (s.slots m).writeDone = false → kicked = true) :
    Tended (lightSend s m mbufs kicked) := by
  obtain ⟨-, hm⟩ := idle_of_callable hcallable
  have hreal : realSocket s.conn m = m := h.conn.route m hm hinit
  have hring : Tended { s with ring := (Reuse.lightSend s m mbufs kicked).ring } := by
    simp only [Reuse.lightSend, hreal]
    split
    · exact h.kick hcallable hinit
    · exact h
  have hdue : ∃ k, (k, .txKick m) ∈ (Reuse.lightSend s m mbufs kicked).ring := by
    simp only [Reuse.lightSend, hreal]
    cases hflag : (s.slots m).writeDone with
    | true =>
      obtain ⟨k, hk⟩ := h.flagged m hflag
      exact ⟨k, by simpa using hk⟩
    | false => exact ⟨(s.conn.locals m).procId, by simp [hkicked hflag]⟩
  refine { hring with flagged := ?_, presented := ?_, fits := ?_ }
  all_goals
    intro c
    by_cases hc : c = m
  · exact fun _ => hc ▸ hdue
  · intro hflag
    refine hring.flagged c ?_
    simpa [Reuse.lightSend, hreal, mapSlots, hc] using hflag
  · simpa [Reuse.lightSend, hreal, mapSlots, hc] using h.presented m
  · simpa [Reuse.lightSend, hreal, mapSlots, hc] using h.presented c
  · rw [hc]
    exact fits_of_init h.conn (h.conn.descriptor_mem_owned hm) hinit
  · simpa [Reuse.lightSend, hreal, mapSlots, hc] using h.fits c

end Tended

/-! ## The stack -/

namespace Tended

variable {s : State} (h : Tended s) {k : Nat} {rest : List (Nat × Entry)}

include h

omit h in
theorem kick_of_take {e : Entry} (htake : Mailbox.take k s.ring = some (e, rest)) {j : Nat}
    (hkick : (j, .txKick c) ∈ s.ring) (hne : e ≠ .txKick c) : (j, .txKick c) ∈ rest := by
  rcases mem_cons.mp ((Mailbox.take_perm htake).mem_iff.mp hkick) with heq | hkick
  · exact absurd (Prod.mk.inj heq).2.symm hne
  · exact hkick

theorem processKick (sent : Nat) (htake : Mailbox.take k s.ring = some (.txKick c, rest)) :
    Tended { s with
      ring := rest
      slots := mapSlots [c] (userOnTransmissionOpportunity sent) s.slots } := by
  have hslots := h.of_shrinks (.userOnTransmissionOpportunity sent) [c]
  refine { hslots with
    pending := ?_
    order := h.order.sublist (Mailbox.sublist_of_take htake)
    home := fun j c' hkick => h.home j c' (Mailbox.subset_of_take htake hkick)
    flagged := ?_ }
  · rw [Mailbox.select_of_take_none htake rfl]
    exact h.pending
  · intro c' hflag
    have hne : c' ≠ c := by
      rintro rfl
      simp [mapSlots, userOnTransmissionOpportunity] at hflag
    obtain ⟨j, hkick⟩ := hslots.flagged c' hflag
    exact ⟨j, kick_of_take htake hkick (by simpa using Ne.symm hne)⟩

omit h in
theorem sameApp_processCommand (s : Conn.State) (k : Nat) (success : Bool)
    (rest : List (Nat × Command)) (cmd : Command) :
    SameApp s (processCommand { s with pending := rest } k success cmd) ∧
      (processCommand { s with pending := rest } k success cmd).pending = rest := by
  cases cmd with
  | bind | setSocketRing | decline => exact ⟨⟨rfl, rfl, rfl, rfl, rfl, rfl, rfl⟩, rfl⟩
  | openSocket c | close c | shutdown c how =>
    simp only [processCommand]
    split <;> exact ⟨⟨rfl, rfl, rfl, rfl, rfl, rfl, rfl⟩, rfl⟩

omit h in
theorem fits_neutral (htake : Mailbox.take k s.conn.pending = some (cmd, pending))
    (happ : SameApp s.conn t) (hpending : t.pending = pending) (hfree : t.free = s.conn.free)
    (hrelease : release cmd = none) (hkernel : ∀ c, t.kernel c = false → s.conn.kernel c = false)
    {x : Slot} (hfits : Fits s.conn c x) : Fits t c x := by
  refine hfits.move ?_ ?_ ?_
  · rw [hfree]
    exact id
  · intro hrel
    rw [(releases_of_take htake).mem_iff, hrelease]
    rwa [releases, hpending] at hrel
  · rw [happ.owned, happ.locals]
    exact fun howned hinit hk => .inr ⟨howned, hinit, hkernel c hk⟩

theorem fits_close (htake : Mailbox.take k s.conn.pending = some (.close c, pending)) (c' : Nat) :
    Fits (lightFreeSocket { s.conn with pending := pending } c) c'
      (mapSlots [c] (userFlush true true) s.slots c') := by
  have happ : SameApp s.conn (lightFreeSocket { s.conn with pending := pending } c) :=
    ⟨rfl, rfl, rfl, rfl, rfl, rfl, rfl⟩
  have hreleases := releases_of_take htake
  have hmem : c ∈ releases s.conn := hreleases.mem_iff.mpr (by simp [release])
  by_cases hc : c' = c
  · subst hc
    have hleft := (h.fits c').leaving hmem
    have hslot : mapSlots [c'] (userFlush true true) s.slots c' =
        userFlush true true (s.slots c') := by simp [mapSlots]
    have hleft' := (Shrinks.userFlush true true).left _ hleft
    rw [hslot]
    refine ⟨fun _ => ⟨hleft', hleft.connectCloseSignal, rfl, rfl, hleft.timeouts⟩,
      fun _ => hleft', fun howned => ?_⟩
    rw [happ.owned] at howned
    exact absurd hmem (h.conn.not_releases_of_owned howned)
  · have hslot : mapSlots [c] (userFlush true true) s.slots c' = s.slots c' := by
      simp [mapSlots, hc]
    have hroom : s.conn.free.items.length < Fd.fdRingCap := by
      have hroom := h.conn.free_room
      have hpos := length_pos_of_mem hmem
      omega
    rw [hslot]
    refine (h.fits c').move ?_ ?_ ?_
    · intro hfree
      simp only [lightFreeSocket, items_putFree s.conn.free _ hroom] at hfree
      simpa [hc] using hfree
    · intro hrel
      exact hreleases.mem_iff.mpr (mem_append_right _ hrel)
    · intro howned hinit hkernel
      refine .inr ⟨happ.owned ▸ howned, hinit, ?_⟩
      simpa [lightFreeSocket, hc] using hkernel

structure Processed (s : State) (t : Conn.State) (success : Bool) (cmd : Command) :
    Prop where
  fits : ∀ c, Fits t c (processSlots s cmd c)
  userData : ∀ c, t.kernel c = true → processUserData s success cmd c = true

theorem processed {success : Bool} (htake : Mailbox.take k s.conn.pending = some (cmd, pending))
    (hopens : opens s.conn k = true → success = true) :
    Processed s (processCommand { s.conn with pending := pending } k success cmd) success cmd := by
  obtain ⟨happ, hpending⟩ := sameApp_processCommand s.conn k success pending cmd
  have htrue : ∀ (g : Nat → Bool) (c c' : Nat), update g c true c' = false → g c' = false := by
    intro g c c' hg
    by_cases hc : c' = c
    · simp [hc] at hg
    · simpa [hc] using hg
  have hnew : ∀ c c', update s.conn.kernel c true c' = true →
      update s.userData c true c' = true := by
    intro c c' hc'
    by_cases hc : c' = c
    · simp [hc]
    · simpa [hc] using h.userData c' (by simpa [hc] using hc')
  cases cmd with
  | openSocket c =>
    obtain rfl : success = true := hopens (by simp [opens, htake])
    exact ⟨fun c' => fits_neutral htake happ hpending rfl rfl
      (fun c'' hk => htrue _ c c'' hk) (h.fits c'), hnew c⟩
  | setSocketRing c =>
    exact ⟨fun c' => fits_neutral htake happ hpending rfl rfl
      (fun c'' hk => htrue _ c c'' hk) (h.fits c'), hnew c⟩
  | bind | decline =>
    exact ⟨fun c' => fits_neutral htake happ hpending rfl rfl (fun _ hk => hk) (h.fits c'),
      h.userData⟩
  | shutdown c how =>
    obtain ⟨hhow, -⟩ := h.conn.stack_shutdown htake
    have hnext : processCommand { s.conn with pending := pending } k success
        (.shutdown c how) = { s.conn with pending := pending } := by
      simp [processCommand, hhow]
    rw [hnext] at happ hpending ⊢
    refine ⟨fun c' => fits_neutral htake happ hpending rfl (by simp [release, hhow])
      (fun _ hk => hk) ?_, ?_⟩
    · unfold processSlots
      dsimp only
      split
      · exact (h.fits c').mapSlots (.userFlush _ _) _
      · exact h.fits c'
    · simpa [processUserData, hhow] using h.userData
  | close c =>
    obtain ⟨hknown, -⟩ := h.conn.stack_close htake
    have hattached : attached s c = true := by simp [attached, hknown, h.userData c hknown]
    have hnext : processCommand { s.conn with pending := pending } k success (.close c) =
        lightFreeSocket { s.conn with pending := pending } c := by
      simp [processCommand, hknown]
    rw [hnext]
    refine ⟨fun c' => ?_, fun c' hc' => ?_⟩
    · simpa [processSlots, hattached] using h.fits_close htake c'
    · have hc : c' ≠ c := by
        rintro rfl
        simp [lightFreeSocket] at hc'
      simpa [processUserData, hc] using h.userData c' (by simpa [lightFreeSocket, hc] using hc')

omit h in
theorem processSlots_marks (s : State) (cmd : Command) (c : Nat) :
    (processSlots s cmd c).writeDone = (s.slots c).writeDone ∧
      (processSlots s cmd c).presentedInChain = (s.slots c).presentedInChain := by
  have hmap : ∀ c' rx tx, (mapSlots [c'] (userFlush rx tx) s.slots c).writeDone =
      (s.slots c).writeDone ∧ (mapSlots [c'] (userFlush rx tx) s.slots c).presentedInChain =
        (s.slots c).presentedInChain := by
    intro c' rx tx
    unfold mapSlots
    split <;> exact ⟨rfl, rfl⟩
  unfold processSlots
  split
  · split
    · exact hmap ..
    · exact ⟨rfl, rfl⟩
  · split
    · exact hmap ..
    · exact ⟨rfl, rfl⟩
  · exact ⟨rfl, rfl⟩

theorem processCommand {success : Bool} (htake : Mailbox.take k s.ring = some (.command cmd, rest))
    (hsupplied : Supplied s.conn (.stack k success))
    (hstep : Conn.step s.conn (.stack k success) = some t) :
    Tended { s with
      conn := t
      ring := rest
      slots := processSlots s cmd
      userData := processUserData s success cmd } := by
  have htake' : Mailbox.take k s.conn.pending = some (cmd, Mailbox.select asCommand rest) := by
    rw [h.pending]
    exact Mailbox.take_select htake rfl
  have heffect := h.conn.effect hsupplied hstep
  have hconn := h.conn.of_effect heffect
  have hkernel := h.kernel.effect h.conn heffect
  have hnext : t = Conn.processCommand
      { s.conn with pending := Mailbox.select asCommand rest } k success cmd := by
    simp only [Conn.step, htake', Option.map_some] at hstep
    split at hstep
    · cases hstep
    · exact (Option.some.inj hstep).symm
  obtain ⟨happ, hpending⟩ :=
    sameApp_processCommand s.conn k success (Mailbox.select asCommand rest) cmd
  obtain ⟨hfits, huserData⟩ := h.processed htake' hsupplied
  rw [← hnext] at happ hpending hfits huserData
  refine
    { conn := hconn
      kernel := hkernel
      pending := hpending
      order := h.order.sublist (Mailbox.sublist_of_take htake)
      home := ?_
      flagged := ?_
      userData := huserData
      stored := h.stored
      presented := fun c => (processSlots_marks s cmd c).2.trans (h.presented c)
      strayed := h.strayed
      fits := hfits }
  · intro j c hkick
    have hbefore := Mailbox.subset_of_take htake hkick
    rcases h.home j c hbefore with hlocal | hclose
    · refine .inl ?_
      rw [happ.descriptors, happ.locals]
      exact hlocal
    · refine .inr ?_
      rw [hpending]
      rcases mem_cons.mp ((Mailbox.take_perm htake').mem_iff.mp hclose) with heq | hmem
      · obtain ⟨-, rfl⟩ := Prod.mk.inj heq
        exact absurd hbefore (h.no_kick_of_close htake j)
      · exact hmem
  · intro c hflag
    rw [(processSlots_marks s cmd c).1] at hflag
    obtain ⟨j, hkick⟩ := h.flagged c hflag
    exact ⟨j, kick_of_take htake hkick (by simp)⟩

end Tended

/-! ## Whole runs -/

variable {s : State}

theorem Tended.start (hstart : Start s) : Tended s := by
  have hconn := Partition.start hstart.conn
  have hfresh : Left zeroed ∧ Untouched zeroed :=
    ⟨⟨rfl, rfl, rfl, by simp [NoTimeouts, zeroed]⟩, ⟨rfl, rfl, rfl, by simp [NoTimeouts, zeroed]⟩⟩
  exact
    { conn := hconn
      kernel := fun c hc => by simp [hstart.conn.kernel_eq] at hc
      pending := by rw [hstart.ring_eq]; exact hstart.conn.pending_eq
      order := by rw [hstart.ring_eq]; exact List.Pairwise.nil
      home := by simp [hstart.ring_eq]
      flagged := by simp [hstart.slots_eq, zeroed]
      userData := by simp [hstart.conn.kernel_eq]
      stored := by simp [hstart.privates_eq]
      presented := by simp [hstart.slots_eq, zeroed]
      strayed := hstart.strayed_eq
      fits := fun c => by
        rw [hstart.slots_eq]
        exact ⟨fun _ => hfresh, fun _ => hfresh.1, fun _ _ _ => hfresh.2⟩ }

theorem Tended.step {t : State} {a : Action} (h : Tended s) (htidy : Tidy s a)
    (hstep : step s a = some t) : Tended t := by
  have hcalled : ∀ {c}, calledBack s c = true → s.conn.kernel c = true := by
    intro c hc
    rw [calledBack, h.strayed c, Bool.or_false] at hc
    exact (Bool.and_eq_true_iff.mp hc).1
  cases a with
  | call a =>
    have hsupplied : Supplied s.conn a ∧ ∀ m posted, a = .close m posted → Undone s m := by
      cases a with
      | close m posted =>
        refine ⟨htidy.1, fun m' posted' heq => ?_⟩
        obtain ⟨rfl, rfl⟩ := Conn.Action.close.inj heq
        exact htidy.2
      | openSocket | bind | resume | connect | accept | shutdown | stack => exact ⟨htidy, by simp⟩
    exact h.call hsupplied.1 hsupplied.2 hstep
  | setNonblock m on =>
    obtain ⟨hm, rfl⟩ := of_guard hstep
    exact h.setNonblock hm on
  | setsockopt m opt posted =>
    obtain ⟨hm, rfl⟩ := of_guard hstep
    exact h.lightSetsockopt hm htidy
  | epollAdd m k e allocated =>
    obtain ⟨hm, rfl⟩ := of_guard hstep
    obtain ⟨hm, hk⟩ := Bool.and_eq_true_iff.mp hm
    exact h.epollAdd hm (of_decide_eq_true hk)
  | epollDel m k e =>
    obtain ⟨hm, rfl⟩ := of_guard hstep
    exact h.of_shrinks (.epollDel e) _
  | send m mbufs kicked =>
    obtain ⟨hm, rfl⟩ := of_guard hstep
    exact h.lightSend hm htidy.1 htidy.2
  | recv m n used =>
    obtain ⟨hm, rfl⟩ := of_guard hstep
    exact h.lightRecv n used
  | stack k success sent =>
    obtain ⟨-, hstep⟩ := Option.ite_none_left_eq_some.mp hstep
    split at hstep
    · cases hstep
    · rename_i c rest htake
      have hknown := h.kernel_of_kick htake
      have hattached : attached s c = true := by simp [attached, hknown, h.userData c hknown]
      rw [if_pos hattached] at hstep
      cases hstep
      exact h.processKick sent htake
    · rename_i cmd rest htake
      obtain ⟨u, hconn, rfl⟩ := Option.map_eq_some_iff.mp hstep
      exact h.processCommand htake htidy hconn
  | transmit c sent =>
    obtain ⟨-, rfl⟩ := of_guard hstep
    exact h.of_shrinks (.userOnTransmissionOpportunity sent) [c]
  | deliver c mbuf =>
    obtain ⟨hc, rfl⟩ := of_guard hstep
    refine h.of_mapSlots [c] (fun _ hx => hx) (fun _ => rfl) fun c' hc' => ?_
    rw [mem_singleton.mp hc']
    refine fits_of_kernel h.conn h.kernel (hcalled hc) fun hrel => ?_
    have hleft := (h.fits c).leaving hrel
    exact ⟨hleft.isNonblock, hleft.connectCloseSignal, hleft.epollNodes, hleft.timeouts⟩
  | markClosed c signal =>
    obtain ⟨hc, rfl⟩ := of_guard hstep
    refine h.of_mapSlots [c] (fun _ hx => hx) (fun _ => rfl) fun c' hc' => ?_
    rw [mem_singleton.mp hc']
    exact fits_of_kernel h.conn h.kernel (hcalled hc) fun hrel => absurd hrel htidy
  | reclaim c | strays c => exact absurd htidy id

theorem tended_of_reachable (hreach : system.ReachableUnder Tidy s) : Tended s := by
  refine hreach.invariant ?_ ?_
  · exact fun s hs => Tended.start hs
  · exact fun s a t h htidy hstep => h.step htidy hstep

theorem acquires_of_handsOut {s : Conn.State} {a : Conn.Action} (heffect : Partition.Effect s a t)
    (hout : t.descriptors = s.descriptors ++ [c]) :
    (∃ l new, Partition.Acquires s t c l new) ∧
      (a = .openSocket ∨ ∃ m k posted, a = .accept m k posted) := by
  have hnot : t.descriptors.length ≠ s.descriptors.length := by simp [hout]
  have hsame : ∀ {c' l new}, Partition.Acquires s t c' l new → c' = c := by
    intro c' l new hacq
    have hdescriptors := hacq.descriptors
    rw [hout] at hdescriptors
    simpa using (append_cancel_left hdescriptors).symm
  cases heffect with
  | opens _ hacq _ =>
    obtain rfl := hsame hacq
    exact ⟨⟨_, _, hacq⟩, .inl rfl⟩
  | accepts _ hacq =>
    obtain rfl := hsame hacq
    exact ⟨⟨_, _, hacq⟩, .inr ⟨_, _, _, rfl⟩⟩
  | binds hbinds _ | resumes hbinds _ => exact absurd (by rw [hbinds.descriptors]) hnot
  | connects => exact absurd rfl hnot
  | @declines m k posted _ _ | @shuts m how posted _ _ => cases posted <;> exact absurd rfl hnot
  | @closes m _ _ _ _ hcloses =>
    have hle := length_erase_le (a := m) (l := s.descriptors)
    have hlength := congrArg List.length hcloses.descriptors
    rw [hout] at hlength
    simp only [length_append, length_singleton] at hlength
    omega
  | @processes k success cmd rest _ _ =>
    obtain ⟨happ, -⟩ := Tended.sameApp_processCommand s k success rest cmd
    exact absurd (by rw [happ.descriptors]) hnot

theorem call_of_handsOut {t : State} {a : Action} (hstep : step s a = some t)
    (hout : HandsOut s t c) : ∃ a', a = .call a' := by
  have hnot : t.conn.descriptors ≠ s.conn.descriptors := by
    rw [hout]
    simp
  cases a with
  | call a' => exact ⟨a', rfl⟩
  | setNonblock | epollAdd | epollDel | send | recv | transmit | deliver | markClosed
  | reclaim | strays =>
    obtain ⟨-, rfl⟩ := of_guard hstep
    exact absurd rfl hnot
  | setsockopt m opt posted =>
    obtain ⟨-, rfl⟩ := of_guard hstep
    refine absurd ?_ hnot
    unfold lightSetsockopt
    split <;> rfl
  | stack k success sent =>
    refine absurd ?_ hnot
    obtain ⟨-, hstep⟩ := Option.ite_none_left_eq_some.mp hstep
    split at hstep
    · cases hstep
    · cases hstep
      rfl
    · obtain ⟨u, hconn, rfl⟩ := Option.map_eq_some_iff.mp hstep
      obtain ⟨-, hconn⟩ := Option.ite_none_left_eq_some.mp hconn
      obtain ⟨⟨cmd, rest⟩, -, rfl⟩ := Option.map_eq_some_iff.mp hconn
      exact (Tended.sameApp_processCommand s.conn k success rest cmd).1.descriptors

/-- In a tidy run, nothing of an earlier owner is left in the slot of an index that is handed out.
-/
theorem handed_out_index_clean {s t : State} {a : Action}
    (hreach : system.ReachableUnder Tidy s) (htidy : Tidy s a)
    (hstep : step s a = some t) {c : Nat} (hout : HandsOut s t c) : Clean t c := by
  have h := tended_of_reachable hreach
  have hnext := h.step htidy hstep
  obtain ⟨a, rfl⟩ := call_of_handsOut hstep hout
  have hsupplied : Supplied s.conn a := by
    cases a with
    | close m posted => exact htidy.1
    | openSocket | bind | resume | connect | accept | shutdown | stack => exact htidy
  simp only [step, call] at hstep
  split at hstep
  · cases hstep
  · obtain ⟨u, hconn, rfl⟩ := Option.map_eq_some_iff.mp hstep
    obtain ⟨⟨l, new, hacq⟩, ha⟩ := acquires_of_handsOut (h.conn.effect hsupplied hconn) hout
    have hfree := hacq.mem_free
    have hfirst : nextFree s.conn = some c := by simp [nextFree, hacq.free]
    have hslot : Fits s.conn c (callSlots s.conn u s.slots a c) := by
      rcases ha with rfl | ⟨m, k, posted, rfl⟩
      · exact h.fits c
      · exact Fits.updateNext .acceptSlot _ ((h.fits c).mapSlots (.dropRx 1) _)
    obtain ⟨hleft, huntouched⟩ := hslot.free hfree
    exact
      { isNonblock := hleft.isNonblock
        connectCloseSignal := hleft.connectCloseSignal
        writeDone := by
          rw [(callSlots_marks ..).1]
          by_contra hflag
          obtain ⟨k, hkick⟩ := h.flagged c (Bool.eq_true_of_not_eq_false hflag)
          exact h.no_kick_of_free hfree hkick
        txRing := huntouched.txRing
        rxRing := huntouched.rxRing
        shadow := by
          rcases ha with rfl | ⟨m, k, posted, rfl⟩ <;>
            simp [callPrivates, updateNext, hfirst, resetLocalDescriptor]
        epollNodes := hleft.epollNodes
        presentedInChain := hnext.presented c
        stored := hnext.stored c
        timeouts := hleft.timeouts }

/-! ## Taking turns

The free ring is a queue, so an index comes back only after all others have been
taken. Opening and closing the others brings it to the front. -/

structure Resting (s : State) : Prop where
  ready : Conn.ready s.conn = true
  descriptors : s.conn.descriptors = []
  freeFds : 0 < s.conn.freeFds

theorem step_call {a : Conn.Action} (happ : isStack a = false)
    (hstep : Conn.step s.conn a = some t) :
    step s (.call a) = some
      { s with
        conn := t
        ring := s.ring ++ (posted s.conn t).map fun x => (x.1, .command x.2)
        slots := callSlots s.conn t s.slots a
        privates := callPrivates s.conn t s.privates a } := by
  simp [step, call, happ, hstep]

structure Opened (s u : State) (c : Nat) : Prop where
  step : step s (.call .openSocket) = some u
  tidy : Tidy s (.call .openSocket)
  free : s.conn.free.items = some c :: u.conn.free.items
  ready : Conn.ready u.conn = true
  descriptors : u.conn.descriptors = [c]
  freeFds : u.conn.freeFds + 1 = s.conn.freeFds
  mapped : u.conn.mapped c = true
  single : (u.conn.sockets c).isMulticore = false
  locals : (u.conn.locals c).hasSocket = true ∧ (u.conn.locals c).isInit = false
  slots : u.slots = s.slots

theorem Resting.open (h : Resting s) {rest : List (Option Nat)}
    (hfree : s.conn.free.items = some c :: rest) : ∃ u, Opened s u c := by
  cases hdequeue : s.conn.free.dequeue with
  | none =>
    rw [Ring.dequeue_eq_none_iff.mp hdequeue] at hfree
    cases hfree
  | some taken =>
    obtain ⟨x, ring⟩ := taken
    have hitems := Ring.dequeue_eq_some_iff.mp hdequeue
    obtain ⟨rfl, -⟩ := List.cons.inj (hitems.symm.trans hfree)
    have hfds : s.conn.freeFds ≠ 0 := Nat.ne_of_gt h.freeFds
    obtain ⟨t, ht⟩ : ∃ t, Conn.step s.conn .openSocket = some t ∧
        t.free = ring ∧ t.fault = s.conn.fault ∧ t.call = s.conn.call ∧
        t.descriptors = s.conn.descriptors ++ [c] ∧ t.freeFds = s.conn.freeFds - 1 ∧
        t.mapped c = true ∧ (t.sockets c).isMulticore = false ∧
        (t.locals c).hasSocket = true ∧ (t.locals c).isInit = false := by
      simp only [Conn.step, h.ready, if_true, lightOpenSocket, lightGetSocket, hdequeue,
        getNewLightFd, setLocal, setSocket, hfds, bind, Except.bind, if_false, settle]
      exact ⟨_, rfl, rfl, rfl, rfl, rfl, rfl, by simp, by simp, by simp, by simp⟩
    obtain ⟨hstep, hring, hfault, hcall, hdescriptors, hfds', hmapped, hsingle, hlocals⟩ := ht
    refine ⟨_,
      { step := step_call rfl hstep
        tidy := ⟨by simp [hfree], h.freeFds⟩
        free := by rw [hring]; exact hitems
        ready := by
          have hready := h.ready
          simp only [Conn.ready] at hready ⊢
          rw [hfault, hcall]
          exact hready
        descriptors := by rw [hdescriptors, h.descriptors]; rfl
        freeFds := by rw [hfds']; omega
        mapped := hmapped
        single := hsingle
        locals := hlocals
        slots := rfl }⟩

structure Returned (u t : State) (c : Nat) : Prop where
  step : step u (.call (.close c 0)) = some t
  tidy : (u.slots c).epollNodes = [] → (u.slots c).isNonblock = false → Tidy u (.call (.close c 0))
  free : t.conn.free.items = u.conn.free.items ++ [some c]
  resting : Resting t
  slots : t.slots = u.slots

theorem Opened.close {u : State} (h : Opened s u c) : ∃ t, Returned u t c := by
  have hmem : c ∈ u.conn.descriptors := by simp [h.descriptors]
  have hidle : u.conn.call = .idle := by
    have hready := h.ready
    simp only [Conn.ready, Bool.and_eq_true, decide_eq_true_eq] at hready
    exact hready.2
  have hroom : u.conn.free.items.length < Fd.fdRingCap := by
    have hbounded := s.conn.free.bounded
    rw [h.free] at hbounded
    exact hbounded
  have hbundle : bundle u.conn c = [c] := by simp [bundle_of_idle hidle, h.single]
  obtain ⟨t, hstep, hfree, hfault, hcall, hdescriptors, hfds, hpending⟩ :
      ∃ t, Conn.step u.conn (.close c 0) = some t ∧
        t.free.items = u.conn.free.items ++ [some c] ∧ t.fault = u.conn.fault ∧
        t.call = u.conn.call ∧ t.descriptors = [] ∧ 0 < t.freeFds ∧
        t.pending = u.conn.pending := by
    simp only [Conn.step, h.ready, hmem, decide_true, Bool.and_self, if_true, lightClose,
      putBackLightFd, h.mapped, h.single, h.locals.2, pointer, h.locals.1, bind,
      Except.bind, pure, Except.pure, Bool.not_false, settle]
    refine ⟨_, rfl, items_putFree u.conn.free _ hroom, rfl, rfl, ?_, Nat.succ_pos _, rfl⟩
    simp [h.descriptors]
  have hposted : posted u.conn t = [] := by simp [posted, hpending]
  refine ⟨_,
    { step := step_call rfl hstep
      tidy := fun hnodes hnonblock => ?_
      free := hfree
      resting := ⟨?_, hdescriptors, hfds⟩
      slots := ?_ }⟩
  · refine ⟨?_, fun c' hc' => ?_⟩
    · simp [Supplied, closesNeeded, hbundle, h.locals.2]
    · rw [hbundle, mem_singleton] at hc'
      subst hc'
      exact ⟨fun _ => hnodes, fun _ => hnonblock⟩
  · have hready := h.ready
    simp only [Conn.ready] at hready ⊢
    rw [hfault, hcall]
    exact hready
  · funext c'
    simp [callSlots, closeSlots, hposted, closedBy]

theorem exists_rotated {guard : State → Action → Prop} (hguard : ∀ s a, Tidy s a → guard s a)
    (front : List Nat) {back : List (Option Nat)} (hreach : system.ReachableUnder guard s)
    (h : Resting s) (hfree : s.conn.free.items = front.map some ++ back)
    (hslots : ∀ c ∈ front, (s.slots c).epollNodes = [] ∧ (s.slots c).isNonblock = false) :
    ∃ t, system.ReachableUnder guard t ∧ Resting t ∧
      t.conn.free.items = back ++ front.map some ∧ t.slots = s.slots := by
  induction front generalizing back s with
  | nil => exact ⟨s, hreach, h, by simpa using hfree, rfl⟩
  | cons c front ih =>
    obtain ⟨u, hopened⟩ := h.open hfree
    obtain ⟨t, hreturned⟩ := hopened.close
    have hslots' : t.slots = s.slots := hreturned.slots.trans hopened.slots
    have hrest : u.conn.free.items = front.map some ++ back := by
      have hfree' := hopened.free
      rw [hfree] at hfree'
      exact (List.cons.inj hfree').2.symm
    obtain ⟨hnodes, hnonblock⟩ := hslots c (mem_cons_self ..)
    have hu := hreach.next (hguard _ _ hopened.tidy) hopened.step
    have ht := hu.next (hguard _ _ (hreturned.tidy (by rw [hopened.slots]; exact hnodes)
      (by rw [hopened.slots]; exact hnonblock))) hreturned.step
    have hback : t.conn.free.items = front.map some ++ (back ++ [some c]) := by
      rw [hreturned.free, hrest, append_assoc]
    obtain ⟨v, hv, hresting, hvfree, hvslots⟩ := ih ht hreturned.resting hback
      (fun c' hc' => by rw [hslots']; exact hslots c' (mem_cons_of_mem _ hc'))
    exact ⟨v, hv, hresting, by simp [hvfree], hvslots.trans hslots'⟩

def startWith (n : Nat) : State :=
  ⟨Conn.startWith n, [], fun _ => zeroed, fun _ => ⟨[], false, none⟩, fun _ => false,
    fun _ => false⟩

theorem start_startWith {n : Nat} (hn : 0 < n) : Start (startWith n) :=
  ⟨Conn.start_startWith hn, rfl, fun _ => rfl, fun _ => rfl, fun _ => rfl, fun _ => rfl⟩

def lastInRing (s : State) : Bool :=
  decide (Conn.ready s.conn = true ∧ s.conn.descriptors = [] ∧ 0 < s.conn.freeFds) &&
    decide (s.conn.free.items = (List.range' 1 2046).map some ++ [some 0]) &&
    (List.range' 1 2046).all fun c =>
      decide ((s.slots c).epollNodes = [] ∧ (s.slots c).isNonblock = false)

theorem exists_handsOut_zero {guard : State → Action → Prop} (hguard : ∀ s a, Tidy s a → guard s a)
    (hreach : system.ReachableUnder guard s) (hlast : lastInRing s = true) :
    ∃ t u, system.ReachableUnder guard t ∧ Opened t u 0 ∧ HandsOut t u 0 ∧
      u.slots = s.slots := by
  simp only [lastInRing, Bool.and_eq_true, decide_eq_true_eq, all_eq_true] at hlast
  obtain ⟨⟨⟨hready, hdescriptors, hfds⟩, hfree⟩, hslots⟩ := hlast
  obtain ⟨t, ht, hresting, hfree', hslots'⟩ :=
    exists_rotated hguard _ hreach ⟨hready, hdescriptors, hfds⟩ hfree hslots
  obtain ⟨u, hopened⟩ := hresting.open hfree'
  refine ⟨t, u, ht, hopened, ?_, hopened.slots.trans hslots'⟩
  rw [HandsOut, hopened.descriptors, hresting.descriptors]
  rfl

theorem handed_out_index_clean_listener :
    ∃ s t, system.ReachableUnder Tidy s ∧ step s (.call .openSocket) = some t ∧
      HandsOut s t 0 ∧ Clean t 0 := by
  obtain ⟨s, hreach, hlast⟩ :=
    system.exists_reachableUnder Tidy (startWith 1)
      [.call .openSocket, .setNonblock 0 true, .call (.bind 0 .posted), .stack 0 true 0,
        .call (.resume .posted 0), .stack 0 true 0, .call (.resume .posted 0),
        .epollAdd 0 0 5 true, .deliver 0 7, .call (.close 0 1), .stack 0 true 0]
      (P := fun s => lastInRing s = true) (start_startWith (by decide)) (by decide +kernel)
  obtain ⟨t, u, ht, hopened, hout, -⟩ := exists_handsOut_zero (fun _ _ htidy => htidy) hreach hlast
  exact ⟨t, u, ht, hopened.step, hout, handed_out_index_clean ht hopened.tidy hopened.step hout⟩

theorem unbound_close_leaves_nonblock :
    ∃ s t, system.Reachable s ∧ step s (.call .openSocket) = some t ∧ HandsOut s t 0 ∧
      ¬Clean t 0 := by
  obtain ⟨s, hreach, hlast, hnonblock⟩ :=
    system.exists_reachable (startWith 1)
      [.call .openSocket, .setNonblock 0 true, .call (.close 0 0)]
      (P := fun s => lastInRing s = true ∧ (s.slots 0).isNonblock = true)
      (start_startWith (by decide)) (by decide +kernel)
  obtain ⟨t, u, ht, hopened, hout, hslots⟩ :=
    exists_handsOut_zero (fun _ _ _ => trivial) hreach hlast
  refine ⟨t, u, ht, hopened.step, hout, fun hclean => ?_⟩
  have hblocking := hclean.isNonblock
  rw [hslots, hnonblock] at hblocking
  cases hblocking

end LightStack.Conn.Reuse
