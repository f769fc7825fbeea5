import LightStack.Tx.Flow.Model

/-!
# Somebody will look at the transmit ring again
-/

namespace LightStack.Tx.Flow

open Lib List

def Kicked (s : State) : Prop := 0 < s.kicks ∨ s.senders ≠ []

def Sock.Expects (k : Sock) : Prop := k.listed = true ∨ k.noSpace = true ∧ k.queue ≠ []

def Trigger (s : State) : Prop := Kicked s ∨ s.sock.Expects

instance (s : State) : Decidable (Kicked s) := inferInstanceAs (Decidable (_ ∨ _))

instance (k : Sock) : Decidable k.Expects := inferInstanceAs (Decidable (_ ∨ _ ∧ _))

instance (s : State) : Decidable (Trigger s) := inferInstanceAs (Decidable (_ ∨ _))

/-- A `TX_KICK` that runs out of send buffer finds `SOCK_NOSPACE` set, the socket on the list or the
next kick on its way; sk_buffs and commands can be made; and data on the ring has a kick when the
connection is established and data to be acknowledged after the peer's FIN. -/
def TriggerKept (s : State) : Action → Prop
  | .issue posted _ => posted = true ∨ 0 < s.kicks
  | .setsockopt (.sndbufForce val) => val < 2 ^ 30
  | .proceed overhead =>
    match s.stack with
    | .test .command =>
      0 < s.sock.wspace ∨ s.txRing = [] ∨ s.sock.noSpace = true ∨ s.sock.listed = true ∨
        Kicked s
    | .dequeue _ => overhead.isSome = true ∨ s.txRing.length ≤ 1
    | _ => True
  | .establish => s.txRing = [] ∨ Kicked s
  | .ack n => s.sock.tcp = .closeWait → s.txRing = [] ∨ n < s.sock.queue.length
  | _ => True

/-! ## What TCP does to the socket -/

variable {k' : Sock} {n : Nat} {ring : List Nat} {senders : List Sender} {cfg : Config}

namespace Sock

structure Rouses (k k' : Sock) : Prop where
  sndbuf : 0 < k'.sndbuf
  connected : k'.connected = true → k.connected = true
  expects : k'.connected = true → k.Expects → k'.Expects

variable {k : Sock}

theorem queue_ne_nil_of_wmemQueued (h : 0 < k.wmemQueued) : k.queue ≠ [] := by
  intro hnil
  have hcharged := k.charged
  simp only [hnil, charge_nil] at hcharged
  omega

theorem isWriteable_of_nil (hsndbuf : 0 < k.sndbuf) (hnil : k.queue = []) :
    k.isWriteable = true := by
  have hcharged := k.charged
  simp only [hnil, charge_nil] at hcharged
  unfold isWriteable wspace
  rw [Bool.and_eq_true, decide_eq_true_eq, decide_eq_true_eq]
  omega

theorem Expects.writeSpace (h : k.Expects) : k.writeSpace.Expects := by
  unfold Sock.writeSpace
  split
  · exact .inl rfl
  · exact h

theorem checkSpace_expects (hsndbuf : 0 < k.sndbuf) (hkept : k.tcp = .established ∨ k.queue ≠ [])
    (h : k.listed = true ∨ k.noSpace = true) : k.checkSpace.Expects := by
  unfold checkSpace
  split
  · next hnospace =>
    by_cases hnil : k.queue = []
    · have htcp : k.tcp = .established := hkept.resolve_right (fun hne => hne hnil)
      have hwriteable := isWriteable_of_nil hsndbuf hnil
      unfold Sock.writeSpace
      rw [if_pos ⟨htcp, hwriteable⟩]
      exact .inl rfl
    · exact Expects.writeSpace (.inr ⟨hnospace, hnil⟩)
  · next hnospace => exact .inl (h.resolve_right hnospace)

theorem connected_congr (h : k'.tcp = k.tcp) : k'.connected = k.connected := by
  simp only [connected, h]

theorem Rouses.writeSpace (hsndbuf : 0 < k'.sndbuf) (htcp : k'.tcp = k.tcp)
    (hexpects : k.Expects → k'.Expects) : Rouses k k'.writeSpace where
  sndbuf := by rwa [writeSpace_sndbuf]
  connected := by
    rw [connected_congr (writeSpace_tcp.trans htcp)]
    exact id
  expects := fun _ h => (hexpects h).writeSpace

theorem Rouses.checkSpace (hsndbuf : 0 < k'.sndbuf) (htcp : k'.tcp = k.tcp)
    (hlisted : k'.listed = k.listed) (hnospace : k'.noSpace = k.noSpace)
    (hkept : k'.tcp = .established ∨ k'.queue ≠ []) : Rouses k k'.checkSpace where
  sndbuf := by rwa [checkSpace_sndbuf]
  connected := by
    rw [connected_congr (checkSpace_tcp.trans htcp)]
    exact id
  expects := by
    intro _ h
    refine checkSpace_expects hsndbuf hkept ?_
    rw [hlisted, hnospace]
    exact h.imp_right And.left

theorem Expects.setSndbuf (h : k.Expects) (sndbuf : Int) : (k.setSndbuf sndbuf).Expects :=
  Expects.writeSpace h

theorem Rouses.setsockopt (cfg : Config) (hsndbuf : 0 < k.sndbuf) {opt : Opt}
    (hforce : ∀ val, opt = .sndbufForce val → val < 2 ^ 30) : Rouses k (k.setsockopt cfg opt) := by
  have hpos := setsockopt_sndbuf_pos cfg hsndbuf hforce
  refine ⟨hpos, ?_, fun _ h => ?_⟩
  · rw [connected_congr setsockopt_tcp]
    exact id
  · cases opt with
    | sndbuf | sndbufForce => exact h.setSndbuf _
    | other => exact h

theorem Rouses.expand (cfg : Config) (hsndbuf : 0 < k.sndbuf) (sndmem : Nat) :
    Rouses k (k.expand cfg sndmem) := by
  have hpos := expand_sndbuf_pos cfg hsndbuf sndmem
  unfold Sock.expand at hpos ⊢
  split at hpos
  · next hgrows =>
    rw [if_pos hgrows]
    exact ⟨hpos, id, fun _ => id⟩
  · next hkeeps =>
    rw [if_neg hkeeps]
    exact ⟨hpos, id, fun _ => id⟩

theorem Rouses.moderate (cfg : Config) (hsndbuf : 0 < k.sndbuf) : Rouses k (k.moderate cfg) := by
  have hpos := moderate_sndbuf_pos cfg hsndbuf
  unfold Sock.moderate at hpos ⊢
  split at hpos
  · next hlocked =>
    rw [if_pos hlocked]
    exact ⟨hpos, id, fun _ => id⟩
  · next hfree =>
    rw [if_neg hfree]
    exact ⟨hpos, id, fun _ => id⟩

theorem of_split {overhead i : Nat} (h : k.split n overhead i = some k') :
    k'.tcp = k.tcp ∧ k'.sndbuf = k.sndbuf ∧ k'.listed = k.listed ∧ k'.noSpace = k.noSpace ∧
      k'.queue ≠ [] := by
  unfold Sock.split at h
  split at h
  · cases h
  · next queue hsplit =>
    cases h
    exact ⟨rfl, rfl, rfl, rfl, splitAt_ne_nil hsplit⟩

theorem of_trim (h : k.trim n = some k') :
    k'.tcp = k.tcp ∧ k'.sndbuf = k.sndbuf ∧ k'.listed = k.listed ∧ k'.noSpace = k.noSpace ∧
      k'.queue ≠ [] := by
  unfold Sock.trim at h
  split at h
  · cases h
  · next skb rest hqueue =>
    obtain ⟨hn, ⟨⟩⟩ := Option.dite_none_right_eq_some.mp h
    exact ⟨rfl, rfl, rfl, rfl, cons_ne_nil _ _⟩

end Sock

structure Progress (s : State) : Prop where
  sndbuf : 0 < s.sock.sndbuf
  -- whoever finds the flag set can rely on a kick
  flag : s.writeDone = true → 0 < s.kicks ∨ .issue ∈ s.senders ∨ s.stack = .clearFlag .command
  -- until the stack knows the ring no kick is taken
  waiting : s.attached = false → s.stack = .idle ∧ (s.txRing ≠ [] → Kicked s)
  trigger : s.stack = .idle → s.sock.connected = true → s.txRing ≠ [] → Trigger s

namespace Progress

variable {s t : State}

theorem start (h : Start s) : Progress s where
  sndbuf := h.sndbuf
  flag := by simp [h.writeDone]
  waiting := fun _ => ⟨h.stack, fun hring => absurd h.txRing hring⟩
  trigger := fun _ _ hring => absurd h.txRing hring

section

variable (h : Progress s)

include h

theorem of_sock {k : Sock} (x : Int) (hk : s.sock.Rouses k) :
    Progress { s with sock := k, txSpace := x } where
  sndbuf := hk.sndbuf
  flag := h.flag
  waiting := h.waiting
  trigger := by
    intro hidle hconn hring
    exact (h.trigger hidle (hk.connected hconn) hring).imp_right (hk.expects hconn)

theorem of_kicked {k : Sock} (x : Int) (hsndbuf : 0 < k.sndbuf)
    (hk : k.connected = true → s.txRing = [] ∨ Kicked s) :
    Progress { s with sock := k, txSpace := x } where
  sndbuf := hsndbuf
  flag := h.flag
  waiting := h.waiting
  trigger := fun _ hconn hring => .inl ((hk hconn).resolve_left hring)

theorem kicked_of_writeDone (hstack : s.stack ≠ .clearFlag .command) (hdone : s.writeDone = true) :
    0 < s.kicks ∨ .issue ∈ s.senders := by
  rcases h.flag hdone with hkicks | hissue | hclear
  · exact .inl hkicks
  · exact .inr hissue
  · exact absurd hclear hstack

theorem of_senders {x : Int} {done : Bool} (hne : senders ≠ [])
    (hflag : done = true → 0 < s.kicks ∨ .issue ∈ senders ∨ s.stack = .clearFlag .command) :
    Progress { s with txRing := ring, senders := senders, txSpace := x, writeDone := done } where
  sndbuf := h.sndbuf
  flag := hflag
  waiting := fun hattached => ⟨(h.waiting hattached).1, fun _ => .inr hne⟩
  trigger := fun _ _ _ => .inl (.inr hne)

theorem flag_of_issue (hissue : .issue ∈ s.senders → .issue ∈ senders) :
    s.writeDone = true → 0 < s.kicks ∨ .issue ∈ senders ∨ s.stack = .clearFlag .command :=
  fun hdone => (h.flag hdone).imp_right (Or.imp_left hissue)

theorem send (bufs : List Nat) : Progress { s with
      txRing := s.txRing ++ bufs
      senders := .subtract bufs.sum :: s.senders } :=
  h.of_senders (cons_ne_nil _ _) (h.flag_of_issue (mem_cons_of_mem _))

end

theorem mem_erase_of_issue {l : List Sender} {a : Sender} (ha : a ≠ .issue)
    (h : .issue ∈ l) : .issue ∈ l.erase a :=
  (mem_erase_of_ne ha.symm).mpr h

theorem subtract (h : Progress s) (bytes : Nat) : Progress { s with
      txSpace := s.txSpace - bytes
      senders := .testAndSet :: s.senders.erase (.subtract bytes) } := by
  refine h.of_senders (cons_ne_nil _ _) (h.flag_of_issue fun hissue => ?_)
  exact mem_cons_of_mem _ (mem_erase_of_issue (by simp) hissue)

theorem of_done (h : Progress s) {kicks : Nat}
    (hdone : s.stack = .idle → 0 < kicks ∨ .issue ∈ senders)
    (hflag : s.writeDone = true → 0 < kicks ∨ .issue ∈ senders ∨ s.stack = .clearFlag .command) :
    Progress { s with senders := senders, kicks := kicks } := by
  have hkicked : s.stack = .idle → Kicked { s with senders := senders, kicks := kicks } := by
    intro hidle
    rcases hdone hidle with hkicks | hissue
    · exact .inl hkicks
    · exact .inr (ne_nil_of_mem hissue)
  refine ⟨h.sndbuf, hflag, fun hattached => ?_, fun hidle _ _ => .inl (hkicked hidle)⟩
  have hidle := (h.waiting hattached).1
  exact ⟨hidle, fun _ => hkicked hidle⟩

theorem testAndSet (h : Progress s) : Progress (testAndSet s) := by
  unfold Flow.testAndSet
  split
  · next hdone =>
    have hissue : .issue ∈ s.senders → .issue ∈ s.senders.erase .testAndSet :=
      mem_erase_of_issue (by simp)
    refine h.of_done (fun hidle => ?_) (h.flag_of_issue hissue)
    exact (h.kicked_of_writeDone (by simp [hidle]) hdone).imp_right hissue
  · exact h.of_senders (cons_ne_nil _ _) fun _ => .inr (.inl mem_cons_self)

theorem issue (h : Progress s) {posted retry : Bool}
    (hguard : posted = true ∨ 0 < s.kicks) : Progress (issue s posted retry) := by
  unfold Flow.issue
  split
  · exact h.of_done (fun _ => .inl (Nat.succ_pos _)) fun _ => .inl (Nat.succ_pos _)
  · next hposted =>
    have hkicks : 0 < s.kicks := hguard.resolve_left hposted
    split
    · exact h.of_senders (cons_ne_nil _ _) fun _ => .inl hkicks
    · exact h.of_done (fun _ => .inl hkicks) fun _ => .inl hkicks

section

variable (h : Progress s)

include h

theorem of_busy {k : Sock} {done : Bool} {pc : StackPc} (hattached : s.attached = true)
    (hpc : pc ≠ .idle) (hsndbuf : k.sndbuf = s.sock.sndbuf)
    (hflag : done = true → 0 < s.kicks ∨ .issue ∈ s.senders) :
    Progress { s with txRing := ring, sock := k, writeDone := done, stack := pc } where
  sndbuf := by
    have hpos := h.sndbuf
    exact hsndbuf ▸ hpos
  flag := fun hdone => (hflag hdone).imp_right .inl
  waiting := by simp [hattached]
  trigger := fun hidle => absurd hidle hpc

theorem of_leave (c : Caller) (hattached : s.attached = true)
    (hbusy : s.stack ≠ .clearFlag .command)
    (htrigger : s.sock.connected = true → ring ≠ [] → Kicked s ∨ (leave s c).sock.Expects) :
    Progress (leave { s with txRing := ring } c) := by
  have hflag := h.kicked_of_writeDone hbusy
  cases c with
  | command | txReady =>
    exact ⟨h.sndbuf, fun hdone => (hflag hdone).imp_right .inl,
      fun hwaits => absurd (hattached.symm.trans hwaits) (by decide), fun _ => htrigger⟩

theorem queue_ne_nil_of_wspace (hfull : s.sock.wspace ≤ 0) : s.sock.queue ≠ [] := by
  have hpos := h.sndbuf
  unfold Sock.wspace at hfull
  exact Sock.queue_ne_nil_of_wmemQueued (by omega)

theorem attached_of_busy (hbusy : s.stack ≠ .idle) : s.attached = true := by
  by_contra hattached
  exact hbusy (h.waiting (by simpa using hattached)).1

theorem expects_of_full {c : Caller}
    (hguard : c = .command →
      0 < s.sock.wspace ∨ s.txRing = [] ∨ s.sock.noSpace = true ∨ s.sock.listed = true ∨ Kicked s)
    (hfull : s.sock.wspace ≤ 0) (hring : s.txRing ≠ []) : Kicked s ∨ (leave s c).sock.Expects := by
  have hqueue := h.queue_ne_nil_of_wspace hfull
  cases c with
  | txReady => exact .inr (.inr ⟨rfl, hqueue⟩)
  | command =>
    rcases hguard rfl with hroom | hnil | hnospace | hlisted | hkicked
    · omega
    · exact absurd hnil hring
    · exact .inr (.inr ⟨hnospace, hqueue⟩)
    · exact .inr (.inl hlisted)
    · exact .inl hkicked

theorem sendpage {c : Caller} {overhead : Option Nat} (hstack : s.stack = .dequeue c)
    (hguard : overhead.isSome = true ∨ s.txRing.length ≤ 1) : Progress (sendpage s c overhead) := by
  have hattached : s.attached = true := h.attached_of_busy (by simp [hstack])
  have hbusy : s.stack ≠ .clearFlag .command := by simp [hstack]
  unfold Flow.sendpage
  split
  · next hring =>
    exact h.of_leave c hattached hbusy (fun _ hne => absurd hring hne)
  · next dataLen rest hring =>
    have hlength : (dataLen :: rest).length ≤ 1 := hring ▸ hguard.resolve_left (by simp)
    have hrest : rest = [] := by simpa using hlength
    exact h.of_leave c hattached hbusy (fun _ hne => absurd hrest hne)
  · exact h.of_busy hattached (by simp) rfl (h.kicked_of_writeDone hbusy)

theorem proceed {overhead : Option Nat} (hguard : TriggerKept s (.proceed overhead))
    (hstep : proceed s overhead = some t) : Progress t := by
  unfold Flow.proceed at hstep
  split at hstep
  · cases hstep
  · next c hstack =>
    cases hstep
    exact h.of_busy (h.attached_of_busy (by simp [hstack])) (by simp) rfl (by simp)
  · next c hstack =>
    cases hstep
    have hattached := h.attached_of_busy (by simp [hstack])
    split
    · next hring =>
      exact h.of_leave c hattached (by simp [hstack]) (fun _ hne => absurd hring hne)
    · exact h.of_busy hattached (by simp) rfl (h.kicked_of_writeDone (by simp [hstack]))
  · next c hstack =>
    cases hstep
    have hattached := h.attached_of_busy (by simp [hstack])
    split
    · next hends =>
      refine h.of_leave c hattached (by simp [hstack]) fun hconn hring => ?_
      have hfull : s.sock.wspace ≤ 0 := hends.resolve_right (by simp [hconn])
      refine h.expects_of_full (fun hc => ?_) hfull hring
      simpa only [TriggerKept, hstack, hc] using hguard
    · exact h.of_busy hattached (by simp) rfl (h.kicked_of_writeDone (by simp [hstack]))
  · next c hstack =>
    cases hstep
    exact h.of_busy (h.attached_of_busy (by simp [hstack])) (by simp) rfl (by simp)
  · next c hstack =>
    cases hstep
    simp only [TriggerKept, hstack] at hguard
    exact h.sendpage hstack hguard

theorem takeKick (hattached : s.attached = true) :
    Progress { s with kicks := s.kicks - 1, stack := .clearFlag .command } where
  sndbuf := h.sndbuf
  flag := fun _ => .inr (.inr rfl)
  waiting := fun hwaits => absurd (hattached.symm.trans hwaits) (by decide)
  trigger := by simp

theorem takeReady (hidle : s.stack = .idle) : Progress (takeReady s) := by
  have hflag := h.kicked_of_writeDone (by simp [hidle])
  unfold Flow.takeReady
  dsimp only
  split
  · next hattached => exact h.of_busy hattached (by simp) rfl hflag
  · next hattached =>
    -- the socket has no user data yet, so all that is on the ring has its kick
    have hwaits := h.waiting (by simpa using hattached)
    exact ⟨h.sndbuf, fun hdone => (hflag hdone).imp_right .inl,
      fun _ => ⟨rfl, hwaits.2⟩, fun _ _ hring => .inl (hwaits.2 hring)⟩

theorem setSocketRing : Progress (setTxSpace { s with attached := true }) :=
  ⟨h.sndbuf, h.flag, fun hwaits => absurd hwaits (by simp [setTxSpace]), h.trigger⟩

end

/-! ## TCP -/

section

variable (h : Progress s)

include h

theorem ack (hguard : TriggerKept s (.ack n)) : Progress (ack s n) := by
  obtain ⟨k, x, heq, hfreed⟩ := tcpCleanRtxQueue_freed n s
  have hpos : 0 < k.sndbuf := hfreed.sndbuf ▸ h.sndbuf
  have hack : Flow.ack s n = { s with sock := k.checkSpace, txSpace := x } := by
    unfold Flow.ack onSock
    rw [heq]
  rw [hack]
  by_cases hring : s.txRing = []
  · exact h.of_kicked x (by simpa using hpos) fun _ => .inl hring
  by_cases hconn : k.connected = true
  · have hkept : k.tcp = .established ∨ k.queue ≠ [] := by
      refine (or_iff_not_imp_left).mpr fun hne => ?_
      have hwait : k.tcp = .closeWait := by simpa [Sock.connected, hne] using hconn
      have hn := (hguard (hfreed.tcp ▸ hwait)).resolve_left hring
      have hlength := hfreed.length
      exact ne_nil_of_length_pos (by omega)
    exact h.of_sock x (.checkSpace hpos hfreed.tcp hfreed.listed hfreed.noSpace hkept)
  · refine h.of_kicked x (by simpa using hpos) fun hconn' => ?_
    rw [Sock.connected_congr Sock.checkSpace_tcp] at hconn'
    exact absurd hconn' hconn

theorem establish (hguard : s.txRing = [] ∨ Kicked s) :
    Progress (onSock (tcpCleanRtxQueue 1 s) fun k => { k with tcp := .established }) := by
  obtain ⟨k, x, heq, hfreed⟩ := tcpCleanRtxQueue_freed 1 s
  have hpos : 0 < k.sndbuf := hfreed.sndbuf ▸ h.sndbuf
  unfold onSock
  rw [heq]
  exact h.of_kicked x hpos fun _ => hguard

theorem tcpStep {a : Action} (hguard : TriggerKept s a) (hstep : tcpStep cfg s a = some t) :
    Progress t := by
  unfold Flow.tcpStep at hstep
  split at hstep
  · next truesize =>
    obtain ⟨hclosed, rfl⟩ := of_guard hstep
    exact h.of_kicked s.txSpace h.sndbuf (by simp [Sock.connected])
  · obtain ⟨hsynSent, rfl⟩ := of_guard hstep
    exact h.establish hguard
  · obtain ⟨hestablished, rfl⟩ := of_guard hstep
    exact h.of_sock s.txSpace
      ⟨h.sndbuf, fun _ => by simp [Sock.connected, hestablished], fun _ => id⟩
  · cases hstep
    exact h.of_kicked s.txSpace h.sndbuf (by simp [Sock.connected])
  · obtain ⟨hunsent, rfl⟩ := of_guard hstep
    exact h.of_sock s.txSpace ⟨h.sndbuf, id, fun _ => id⟩
  · cases hstep
    exact h.of_sock s.txSpace ⟨h.sndbuf, id, fun _ => id⟩
  · obtain ⟨hclones, rfl⟩ := of_guard hstep
    exact h.of_sock s.txSpace (.writeSpace h.sndbuf rfl id)
  · next n =>
    obtain ⟨hidle, rfl⟩ := of_guard hstep
    exact h.ack hguard
  · next n =>
    obtain ⟨hidle, hstep⟩ := Option.ite_none_right_eq_some.mp hstep
    obtain ⟨k, htrim, rfl⟩ := Option.map_eq_some_iff.mp hstep
    obtain ⟨htcp, hsndbuf, hlisted, hnospace, hqueue⟩ := Sock.of_trim htrim
    exact h.of_sock s.txSpace (.checkSpace (hsndbuf ▸ h.sndbuf) htcp hlisted hnospace (.inr hqueue))
  · next n overhead i =>
    obtain ⟨k, hsplit, rfl⟩ := Option.map_eq_some_iff.mp hstep
    obtain ⟨htcp, hsndbuf, hlisted, hnospace, hqueue⟩ := Sock.of_split hsplit
    refine h.of_sock s.txSpace ⟨hsndbuf ▸ h.sndbuf, ?_, fun _ hexpects => ?_⟩
    · rw [Sock.connected_congr htcp]
      exact id
    · unfold Sock.Expects at hexpects ⊢
      rw [hlisted, hnospace]
      exact hexpects.imp_right fun hwaits => ⟨hwaits.1, hqueue⟩
  · next sndmem =>
    cases hstep
    exact h.of_sock s.txSpace (.expand cfg h.sndbuf sndmem)
  · cases hstep
    exact h.of_sock s.txSpace (.moderate cfg h.sndbuf)
  · cases hstep

theorem setsockopt {opt : Sock.Opt} (hguard : TriggerKept s (.setsockopt opt)) :
    Progress (setTxSpace (onSock s fun k => k.setsockopt cfg opt)) := by
  refine h.of_sock _ (.setsockopt cfg h.sndbuf fun val hval => ?_)
  subst hval
  exact hguard

theorem step {a : Action} (hguard : TriggerKept s a) (hstep : step cfg s a = some t) :
    Progress t := by
  unfold Flow.step at hstep
  split at hstep
  · next bufs =>
    obtain ⟨hbufs, rfl⟩ := of_guard hstep
    exact h.send bufs
  · next bytes =>
    obtain ⟨hmem, rfl⟩ := of_guard hstep
    exact h.subtract bytes
  · obtain ⟨hmem, rfl⟩ := of_guard hstep
    exact h.testAndSet
  · obtain ⟨hmem, rfl⟩ := of_guard hstep
    exact h.issue hguard
  · obtain ⟨hwaits, rfl⟩ := of_guard hstep
    exact h.setSocketRing
  · obtain ⟨hidle, rfl⟩ := of_guard hstep
    exact h.setsockopt hguard
  · obtain ⟨⟨hidle, hattached, hkicks⟩, rfl⟩ := of_guard hstep
    exact h.takeKick hattached
  · obtain ⟨⟨hidle, hlisted⟩, rfl⟩ := of_guard hstep
    exact h.takeReady hidle
  · exact h.proceed hguard hstep
  · exact h.tcpStep hguard hstep

end

end Progress

/-- Between two calls, if there are buffers on the ring of an open connection, a kick is on its way,
the socket is on the list, or `SOCK_NOSPACE` is set and data is outstanding. -/
theorem transmit_trigger_pending (cfg : Config) (s : State)
    (hreach : (system cfg).ReachableUnder TriggerKept s) (hidle : s.stack = .idle)
    (hconn : s.sock.connected = true) (hring : s.txRing ≠ []) : Trigger s := by
  have hprogress : Progress s :=
    TransitionSystem.ReachableUnder.invariant (fun _ => Progress.start)
      (fun _ _ _ h hguard hstep => h.step hguard hstep) hreach
  exact hprogress.trigger hidle hconn hring

instance (s : State) (a : Action) : Decidable (TriggerKept s a) := by
  cases_type Action <;> dsimp only [TriggerKept] <;> try infer_instance
  · cases_type Sock.Opt <;> infer_instance
  · generalize s.stack = pc
    rcases pc with _ | _ | _ | (_ | _) | _ | _ <;> infer_instance

def warmedUp : List Action :=
  [Action.setSocketRing] ++ lightSend [100] ++ [Action.takeKick] ++ opportunity 1 1280 ++
    [Action.proceed none, .proceed none, .transmit, .freeClone, .takeReady, .proceed none,
      .proceed none, .ack 1, .takeReady, .proceed none, .proceed none]

theorem transmit_trigger_pending_full :
    ∃ s, (system defaultConfig).ReachableUnder TriggerKept s ∧ s.stack = .idle ∧
      s.sock.connected = true ∧ s.txRing ≠ [] ∧ s.kicks = 0 ∧ s.senders = [] ∧ Trigger s := by
  obtain ⟨s, hreach, hidle, hconn, hring, hkicks, hsenders⟩ :=
    (system defaultConfig).exists_reachableUnder TriggerKept (accepted 16384)
      (warmedUp ++ lightSend (List.replicate 11 1448) ++ [Action.takeKick] ++ opportunity 7 1280)
      (P := fun s => s.stack = .idle ∧ s.sock.connected = true ∧ s.txRing ≠ [] ∧
        s.kicks = 0 ∧ s.senders = [])
      (start_accepted (by decide)) (by decide +kernel)
  exact ⟨s, hreach, hidle, hconn, hring, hkicks, hsenders,
    transmit_trigger_pending defaultConfig s hreach hidle hconn hring⟩

/-- After the run a ring that is not empty waits for nothing. -/
def Stalls (run : List Action) : Prop :=
  (system defaultConfig).ReachesBy (accepted 16384) run fun s =>
    s.stack = .idle ∧ s.sock.connected = true ∧ s.txRing ≠ [] ∧ ¬ Trigger s ∧
      s.sock.queue = [] ∧ s.sock.clones = 0

def drained (n : Nat) : List Action :=
  List.replicate n Action.transmit ++ List.replicate n Action.freeClone ++ [Action.ack n]

/-- A kick fills the send buffer of a connection that was never on the list; and one that was gets
the peer's `FIN` before the acknowledgement. -/
theorem transmit_ring_stalls :
    Stalls ([Action.setSocketRing] ++ lightSend (List.replicate 11 1448) ++ [Action.takeKick] ++
      opportunity 7 1280 ++ drained 7) ∧
    Stalls (warmedUp ++ lightSend (List.replicate 11 1448) ++ [Action.takeKick] ++
      opportunity 7 1280 ++ [Action.fin] ++ drained 7) := by
  constructor
  · exact (system defaultConfig).reachesBy (start_accepted (by decide)) (by decide +kernel)
  · exact (system defaultConfig).reachesBy (start_accepted (by decide)) (by decide +kernel)

end LightStack.Tx.Flow
