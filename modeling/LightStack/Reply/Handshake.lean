import LightStack.Reply.Buffers

/-!
# The handshake of open and bind

A caller that waits alone has the buffer. What it finds there was written for its command, or was
there before.
-/

namespace LightStack.Reply

open Lib Function List

variable {s t : State} {p q k : Nat} {c : Call} {cmd : Command}

/-! ## Answers -/

structure Answered (s : State) (c : Call) (id : Nat) : Prop where
  ready : s.readySignal c.buf = true
  value : (s.returnValue c.buf).writer = some id
  errno : c.kind = .bind → (s.returnErrno c.buf).writer = some id

def Fits (s : State) (p : Nat) : Pc → Prop
  | .idle => True
  | .taken _ => True
  | .cleared c => s.readySignal c.buf = false
  | .polling c id => ⟨id, p, c⟩ ∈ s.pending c.proc ∨ Answered s c id
  | .signalled c id => Answered s c id
  | .errnoRead c id errno =>
    (s.returnValue c.buf).writer = some id ∧ ∀ e ∈ errno, e.writer = some id
  | .valueRead _ => True

def Staged (s : State) (cmd : Command) : Stage → Prop
  | .fetched => True
  | .executed a => cmd.call.kind = .bind → a.errno ≠ none
  | .written errno => (s.returnValue cmd.call.buf).writer = some cmd.id ∧
      (errno = none → cmd.call.kind = .bind → (s.returnErrno cmd.call.buf).writer = some cmd.id)

variable {stage : Stage} {j : Nat} {pc : Pc}

theorem Staged.congr (h : Staged s cmd stage)
    (hvalue : t.returnValue cmd.call.buf = s.returnValue cmd.call.buf)
    (herrno : t.returnErrno cmd.call.buf = s.returnErrno cmd.call.buf) : Staged t cmd stage := by
  cases stage with
  | fetched => trivial
  | executed a => exact h
  | written errno =>
    refine ⟨?_, ?_⟩
    · rw [hvalue]
      exact h.1
    · rw [herrno]
      exact h.2

structure Served (s : State) : Prop where
  pooled : Pooled s
  nodup : ∀ k, (s.pending k).Nodup
  asked : ∀ k, ∀ cmd ∈ s.pending k, s.pc cmd.caller = .polling cmd.call cmd.id ∧
    cmd.call.proc = k ∧ s.readySignal cmd.call.buf = false
  fits : ∀ p, Fits s p (s.pc p)
  staged : ∀ k cmd stage, s.stack k = some (cmd, stage) → Staged s cmd stage
  own : ∀ r ∈ s.results, r.Own

namespace Served

theorem mem_pending_of_stack (h : s.stack k = some (cmd, stage)) : cmd ∈ s.pending k := by
  simp [State.pending, h]

theorem caller_ne (h : Served s) (hpc : ∀ d id, s.pc p ≠ .polling d id)
    (hcmd : cmd ∈ s.pending k) : cmd.caller ≠ p := by
  rintro rfl
  exact hpc _ _ (h.asked k cmd hcmd).1

theorem buf_ne (h : Served s) {other : Command} (hcmd : cmd ∈ s.pending k)
    (hother : other ∈ s.pending j) (hne : other ≠ cmd) : other.call.buf ≠ cmd.call.buf := by
  intro hbuf
  obtain ⟨hpc, -, -⟩ := h.asked k cmd hcmd
  obtain ⟨hpc', -, -⟩ := h.asked j other hother
  have hcaller : other.caller = cmd.caller :=
    h.pooled.sole _ _ cmd.call.buf ⟨other.call, by rw [hpc']; rfl, hbuf⟩
      ⟨cmd.call, by rw [hpc]; rfl, rfl⟩
  rw [hcaller, hpc] at hpc'
  obtain ⟨hcall, hid⟩ := Pc.polling.inj hpc'
  apply hne
  cases other
  cases cmd
  simp_all

theorem held_buf_ne (h : Served s) (hcmd : cmd ∈ s.pending k)
    (hheld : (s.pc q).held = some c) (hq : q ≠ cmd.caller) : c.buf ≠ cmd.call.buf := by
  intro hbuf
  obtain ⟨hpc, -, -⟩ := h.asked k cmd hcmd
  exact hq (h.pooled.sole q cmd.caller cmd.call.buf ⟨c, hheld, hbuf⟩
    ⟨cmd.call, by rw [hpc]; rfl, rfl⟩)

end Served

theorem Fits.congr (h : Fits s q pc) (hpending : ∀ c id, pc = .polling c id →
      ⟨id, q, c⟩ ∈ s.pending c.proc → ⟨id, q, c⟩ ∈ t.pending c.proc)
    (hbuf : ∀ c, pc.held = some c → t.readySignal c.buf = s.readySignal c.buf ∧
      t.returnValue c.buf = s.returnValue c.buf ∧
      t.returnErrno c.buf = s.returnErrno c.buf) : Fits t q pc := by
  have hanswered : ∀ c id, pc.held = some c → Answered s c id → Answered t c id := by
    intro c id hc ⟨hready, hvalue, herrno⟩
    obtain ⟨h1, h2, h3⟩ := hbuf c hc
    exact ⟨h1 ▸ hready, h2 ▸ hvalue, h3 ▸ herrno⟩
  cases pc with
  | idle | taken | valueRead => trivial
  | cleared c => exact (hbuf c rfl).1.trans h
  | polling c id => exact Or.imp (hpending c id rfl) (hanswered c id rfl) h
  | signalled c id => exact hanswered c id rfl h
  | errnoRead c id errno =>
    refine ⟨?_, h.2⟩
    rw [(hbuf c rfl).2.1]
    exact h.1

namespace Served

theorem of_pools (h : Served s) {pools : Nat → List Nat}
    (hcaller : ∀ k, ∀ cmd ∈ s.pending k, cmd.caller ≠ p) (hfits : Fits s p pc)
    (hpooled : Pooled { s.setPc p pc with pools := pools }) :
    Served { s.setPc p pc with pools := pools } where
  pooled := hpooled
  nodup := h.nodup
  asked := by
    intro k cmd hcmd
    show (s.setPc p pc).pc cmd.caller = _ ∧ _
    rw [setPc_pc_of_ne pc (hcaller k cmd hcmd)]
    exact h.asked k cmd hcmd
  fits := by
    intro q
    show Fits _ q ((s.setPc p pc).pc q)
    by_cases hq : q = p
    · subst hq
      rw [setPc_pc_self]
      exact hfits.congr (fun _ _ _ hmem => hmem) fun _ _ => ⟨rfl, rfl, rfl⟩
    · rw [setPc_pc_of_ne pc hq]
      exact (h.fits q).congr (fun _ _ _ hmem => hmem) fun _ _ => ⟨rfl, rfl, rfl⟩
  staged := h.staged
  own := h.own

theorem setPc (h : Served s) (hpc : ∀ d id, s.pc p ≠ .polling d id)
    (hheld : pc.held = (s.pc p).held) (hfits : Fits s p pc) : Served (s.setPc p pc) :=
  h.of_pools (fun _ _ => h.caller_ne hpc) hfits (h.pooled.setPc hheld)

theorem take (h : Served s) (hstep : take s p c = some t) : Served t := by
  obtain ⟨hidle, rfl | ⟨hmem, rfl⟩⟩ := of_take hstep
  · exact h
  · refine h.of_pools (fun _ _ => h.caller_ne fun d id hpc => ?_) trivial
      (h.pooled.withdraw hidle hmem)
    cases hidle.symm.trans hpc

theorem putBack (h : Served s) (hc : (s.pc p).held = some c)
    (hpc : ∀ d id, s.pc p ≠ .polling d id) : Served (putBack s p c) :=
  h.of_pools (fun _ _ => h.caller_ne hpc) trivial (h.pooled.putBack hc)

theorem clear (h : Served s) (hstep : clear s p = some t) : Served t := by
  unfold Reply.clear at hstep
  split at hstep
  · rename_i c hpc
    cases hstep
    have hnot : ∀ d id, s.pc p ≠ .polling d id := fun d id h => nomatch hpc.symm.trans h
    -- no command under way points to the buffer in hand
    have hbuf : ∀ k, ∀ cmd ∈ s.pending k, cmd.call.buf ≠ c.buf := fun k cmd hcmd heq =>
      h.held_buf_ne hcmd (by rw [hpc]; rfl) (h.caller_ne hnot hcmd).symm heq.symm
    refine ⟨(h.pooled.setPc (by rw [hpc]; rfl)).congr rfl rfl fun _ => rfl, h.nodup, ?_, ?_,
      h.staged, h.own⟩
    · intro k cmd hcmd
      obtain ⟨hpoll, hproc, hready⟩ := h.asked k cmd hcmd
      refine ⟨?_, hproc, ?_⟩
      · show (s.setPc p (.cleared c)).pc cmd.caller = _
        rw [setPc_pc_of_ne _ (h.caller_ne hnot hcmd), hpoll]
      · exact (update_of_ne (hbuf k cmd hcmd) ..).trans hready
    · intro q
      show Fits _ q ((s.setPc p (.cleared c)).pc q)
      by_cases hq : q = p
      · subst hq
        rw [setPc_pc_self]
        exact update_self ..
      · rw [setPc_pc_of_ne _ hq]
        refine (h.fits q).congr (fun _ _ _ hmem => hmem) fun d hd => ⟨?_, rfl, rfl⟩
        refine update_of_ne (fun heq => hq ?_) ..
        exact h.pooled.sole q p c.buf ⟨d, hd, heq⟩ ⟨c, by rw [hpc]; rfl, rfl⟩
  · cases hstep

theorem pending_enqueue (s : State) (p : Nat) (c : Call) (j : Nat) :
    State.pending { s.setPc p (.polling c s.next) with
      ring := update s.ring c.proc (s.ring c.proc ++ [⟨s.next, p, c⟩])
      next := s.next + 1 } j =
      s.pending j ++ if j = c.proc then [⟨s.next, p, c⟩] else [] := by
  by_cases hj : j = c.proc
  · subst hj
    simp [State.pending, State.setPc]
  · simp [State.pending, State.setPc, hj]

section

variable (h : Served s)

include h

theorem enqueue {full : Bool} (hstep : enqueue s p full = some t) : Served t := by
  unfold Reply.enqueue at hstep
  split at hstep
  · rename_i c hpc
    have hnot : ∀ d id, s.pc p ≠ .polling d id := fun d id h => nomatch hpc.symm.trans h
    split at hstep
    · cases hstep
      exact h.putBack (by rw [hpc]; rfl) hnot
    cases hstep
    have hpending := pending_enqueue s p c
    have hready : s.readySignal c.buf = false := by
      have hfits := h.fits p
      rw [hpc] at hfits
      exact hfits
    have hcases : ∀ j cmd, cmd ∈ (s.pending j ++ if j = c.proc then [⟨s.next, p, c⟩] else []) →
        cmd ∈ s.pending j ∨ (j = c.proc ∧ cmd = ⟨s.next, p, c⟩) := by
      intro j cmd hcmd
      rcases mem_append.mp hcmd with hcmd | hcmd
      · exact .inl hcmd
      · split at hcmd
        · exact .inr ⟨‹_›, mem_singleton.mp hcmd⟩
        · cases hcmd
    refine ⟨(h.pooled.setPc (by rw [hpc]; rfl)).congr rfl rfl fun _ => rfl, ?_, ?_, ?_,
      h.staged, h.own⟩
    · intro j
      rw [hpending]
      split
      · refine nodup_append.mpr ⟨h.nodup j, nodup_singleton _, ?_⟩
        intro cmd hcmd cmd' hcmd' heq
        rw [heq, mem_singleton.mp hcmd'] at hcmd
        exact h.caller_ne hnot hcmd rfl
      · rw [append_nil]
        exact h.nodup j
    · intro j cmd hcmd
      rw [hpending] at hcmd
      show (s.setPc p (.polling c s.next)).pc cmd.caller = _ ∧ _
      rcases hcases j cmd hcmd with hcmd | ⟨rfl, rfl⟩
      · rw [setPc_pc_of_ne _ (h.caller_ne hnot hcmd)]
        exact h.asked j cmd hcmd
      · exact ⟨setPc_pc_self _, rfl, hready⟩
    · intro q
      show Fits _ q ((s.setPc p (.polling c s.next)).pc q)
      by_cases hq : q = p
      · subst hq
        rw [setPc_pc_self]
        left
        rw [hpending, if_pos rfl]
        exact mem_append_right _ (mem_singleton.mpr rfl)
      · rw [setPc_pc_of_ne _ hq]
        refine (h.fits q).congr (fun d id _ hmem => ?_) fun _ _ => ⟨rfl, rfl, rfl⟩
        rw [hpending]
        exact mem_append_left _ hmem
  · cases hstep

theorem answered_of_ready {id : Nat} (hpc : s.pc p = .polling c id)
    (hready : s.readySignal c.buf = true) : Answered s c id := by
  have hfits := h.fits p
  rw [hpc] at hfits
  rcases hfits with hpending | hanswered
  · have hnot := (h.asked _ _ hpending).2.2
    rw [hready] at hnot
    cases hnot
  · exact hanswered

theorem poll (hstep : poll s p = some t) : Served t := by
  unfold Reply.poll at hstep
  split at hstep
  · rename_i c id hpc
    split at hstep
    · rename_i hready
      cases hstep
      have hanswered := h.answered_of_ready hpc hready
      -- the signal is set, so no command of this call is under way
      have hcaller : ∀ k, ∀ cmd ∈ s.pending k, cmd.caller ≠ p := by
        rintro k cmd hcmd rfl
        obtain ⟨hpoll, -, hnot⟩ := h.asked k cmd hcmd
        obtain ⟨hcall, -⟩ := Pc.polling.inj (hpc.symm.trans hpoll)
        rw [← hcall, hready] at hnot
        cases hnot
      exact h.of_pools hcaller hanswered (h.pooled.setPc (by rw [hpc]; rfl))
    · cases hstep
      exact h
  · cases hstep

theorem read (hstep : read s p = some t) : Served t := by
  have hfits := h.fits p
  unfold Reply.read at hstep
  split at hstep
  · rename_i c id hpc
    cases hstep
    rw [hpc] at hfits
    refine h.setPc (fun d id h => nomatch hpc.symm.trans h) (by rw [hpc]; rfl) ⟨hfits.value, ?_⟩
    intro e he
    split at he
    · rename_i hbind
      cases he
      exact hfits.errno hbind
    · cases he
  · rename_i c id errno hpc
    cases hstep
    rw [hpc] at hfits
    have hnext : Served (s.setPc p (.valueRead c)) :=
      h.setPc (fun d id h => nomatch hpc.symm.trans h) (by rw [hpc]; rfl) trivial
    refine ⟨hnext.pooled.congr rfl rfl fun _ => rfl, hnext.nodup, hnext.asked, ?_, hnext.staged, ?_⟩
    · intro q
      exact (hnext.fits q).congr (fun _ _ _ hmem => hmem) fun _ _ => ⟨rfl, rfl, rfl⟩
    · intro r hr
      rcases mem_append.mp hr with hr | hr
      · exact h.own r hr
      · obtain rfl := mem_singleton.mp hr
        exact hfits
  · cases hstep

theorem free (hstep : free s p = some t) : Served t := by
  unfold Reply.free at hstep
  split at hstep
  · rename_i c hpc
    cases hstep
    exact h.putBack (by rw [hpc]; rfl) fun d id h => nomatch hpc.symm.trans h
  · cases hstep

theorem of_stack (hcmd : cmd ∈ s.pending k) (hbufs : t.bufs = s.bufs) (hpools : t.pools = s.pools)
    (hpc : t.pc = s.pc) (hready : t.readySignal = s.readySignal) (hresults : t.results = s.results)
    (hvalue : ∀ b, b ≠ cmd.call.buf → t.returnValue b = s.returnValue b)
    (herrno : ∀ b, b ≠ cmd.call.buf → t.returnErrno b = s.returnErrno b)
    (hpending : ∀ j, t.pending j = s.pending j) (hother : ∀ j, j ≠ k → t.stack j = s.stack j)
    (hstack : t.stack k = some (cmd, stage)) (hstaged : Staged t cmd stage) :
    Served t where
  pooled := h.pooled.congr hbufs hpools fun q => by rw [hpc]
  nodup := by
    intro j
    rw [hpending]
    exact h.nodup j
  asked := by
    intro j other hmem
    rw [hpending] at hmem
    rw [hpc, hready]
    exact h.asked j other hmem
  fits := by
    intro q
    rw [hpc]
    by_cases hq : q = cmd.caller
    · -- the caller still waits
      obtain ⟨hpoll, hproc, -⟩ := h.asked k cmd hcmd
      rw [hq, hpoll]
      left
      rw [hpending, hproc]
      exact hcmd
    · refine (h.fits q).congr (fun c id _ hmem => ?_) fun c hc => ?_
      · rw [hpending]
        exact hmem
      · have hne := h.held_buf_ne hcmd hc hq
        rw [hready]
        exact ⟨rfl, hvalue _ hne, herrno _ hne⟩
  staged := by
    intro j other stage hj
    by_cases hjk : j = k
    · subst hjk
      obtain ⟨rfl, rfl⟩ := Prod.mk.inj (Option.some.inj (hstack.symm.trans hj))
      exact hstaged
    rw [hother j hjk] at hj
    have hmem := mem_pending_of_stack hj
    have hne : other ≠ cmd := by
      rintro rfl
      exact hjk ((h.asked j other hmem).2.1.symm.trans (h.asked k other hcmd).2.1)
    have hbuf := h.buf_ne hcmd hmem hne
    exact (h.staged j other stage hj).congr (hvalue _ hbuf) (herrno _ hbuf)
  own := by
    rw [hresults]
    exact h.own

end

theorem pending_update (s : State) (k : Nat) (x : Option (Command × Stage)) (rest : List Command)
    (hsame : (x.map Prod.fst).toList ++ rest = s.pending k) (j : Nat) :
    ((update s.stack k x j).map Prod.fst).toList ++ update s.ring k rest j = s.pending j := by
  by_cases hj : j = k
  · subst hj
    rw [update_self, update_self, hsame]
  · rw [update_of_ne hj, update_of_ne hj]
    rfl

theorem pending_stage (hstack : s.stack k = some (cmd, stage)) (stage' : Stage)
    (j : Nat) : ((update s.stack k (some (cmd, stage')) j).map Prod.fst).toList ++
      s.ring j = s.pending j := by
  have h := pending_update s k (some (cmd, stage')) (s.ring k) (by simp [State.pending, hstack]) j
  rwa [Function.update_eq_self] at h

theorem dequeue (h : Served s) (hstep : dequeue s k = some t) : Served t := by
  unfold Reply.dequeue at hstep
  split at hstep
  · rename_i cmd rest hstack hring
    cases hstep
    have hcmd : cmd ∈ s.pending k := by simp [State.pending, hring]
    exact h.of_stack hcmd rfl rfl rfl rfl rfl (fun _ _ => rfl) (fun _ _ => rfl)
      (pending_update s k _ rest (by simp [State.pending, hstack, hring]))
      (fun j hj => update_of_ne hj ..) (update_self ..) trivial
  · cases hstep

theorem answer_errno {rv : Nat} (hbind : c.kind = .bind) (hsocket : s.socket k c.index = true) :
    (answer s k c rv).errno ≠ none := by
  simp [answer, hbind, hsocket]

theorem execute (h : Served s) {rv : Nat} (hguard : s.lacksSocket k = false)
    (hstep : execute s k rv = some t) : Served t := by
  unfold Reply.execute at hstep
  split at hstep
  · rename_i cmd hstack
    cases hstep
    refine h.of_stack (mem_pending_of_stack hstack) rfl rfl rfl rfl rfl (fun _ _ => rfl)
      (fun _ _ => rfl) (pending_stage hstack _) (fun j hj => update_of_ne hj ..)
      (update_self ..) ?_
    intro hbind
    refine answer_errno hbind ?_
    simpa [State.lacksSocket, hstack, hbind] using hguard
  · cases hstep

def raised (s : State) (k : Nat) (cmd : Command) : State :=
  { s with
    stack := update s.stack k none
    readySignal := update s.readySignal cmd.call.buf true }

theorem pending_raised_self (s : State) (k : Nat) (cmd : Command) :
    (raised s k cmd).pending k = s.ring k := by
  simp [State.pending, raised]

theorem pending_raised_of_ne (hj : j ≠ k) : (raised s k cmd).pending j = s.pending j := by
  simp [State.pending, raised, hj]

theorem pending_eq_cons (hstack : s.stack k = some (cmd, stage)) :
    s.pending k = cmd :: s.ring k := by
  simp [State.pending, hstack]

theorem nodup_raised (h : Served s) (hstack : s.stack k = some (cmd, stage))
    (j : Nat) : ((raised s k cmd).pending j).Nodup := by
  by_cases hj : j = k
  · subst hj
    have hnodup := h.nodup j
    rw [pending_eq_cons hstack, nodup_cons] at hnodup
    rw [pending_raised_self]
    exact hnodup.2
  · rw [pending_raised_of_ne hj]
    exact h.nodup j

theorem mem_raised (h : Served s) (hstack : s.stack k = some (cmd, stage)) {other : Command} :
    other ∈ (raised s k cmd).pending j ↔ other ∈ s.pending j ∧ other ≠ cmd := by
  by_cases hj : j = k
  · subst hj
    have hnodup := h.nodup j
    rw [pending_eq_cons hstack, nodup_cons] at hnodup
    rw [pending_raised_self, pending_eq_cons hstack, mem_cons]
    constructor
    · intro hmem
      exact ⟨.inr hmem, fun heq => hnodup.1 (heq ▸ hmem)⟩
    · rintro ⟨heq | hmem, hne⟩
      · exact (hne heq).elim
      · exact hmem
  · rw [pending_raised_of_ne hj]
    refine ⟨fun hmem => ⟨hmem, ?_⟩, And.left⟩
    rintro rfl
    have hproc := (h.asked k other (mem_pending_of_stack hstack)).2.1
    exact hj ((h.asked j other hmem).2.1.symm.trans hproc)

theorem signal (h : Served s) (hstack : s.stack k = some (cmd, .written none)) :
    Served (raised s k cmd) := by
  have hcmd := mem_pending_of_stack hstack
  refine ⟨h.pooled.congr rfl rfl fun _ => rfl, h.nodup_raised hstack, ?_, ?_, ?_, h.own⟩
  · intro j other hmem
    obtain ⟨hmem, hne⟩ := (h.mem_raised hstack).mp hmem
    obtain ⟨hpoll, hproc, hready⟩ := h.asked j other hmem
    exact ⟨hpoll, hproc, (update_of_ne (h.buf_ne hcmd hmem hne) ..).trans hready⟩
  · intro q
    show Fits _ q (s.pc q)
    by_cases hq : q = cmd.caller
    · -- the caller has its answer
      rw [hq, (h.asked k cmd hcmd).1]
      obtain ⟨hvalue, herrno⟩ := h.staged k cmd _ hstack
      exact .inr ⟨update_self .., hvalue, herrno rfl⟩
    · refine (h.fits q).congr (fun d id _ hmem => ?_) fun d hd => ⟨?_, rfl, rfl⟩
      · refine (h.mem_raised hstack).mpr ⟨hmem, ?_⟩
        rintro rfl
        exact hq rfl
      · exact update_of_ne (h.held_buf_ne hcmd hd hq) ..
  · intro j other stage hj
    by_cases hjk : j = k
    · subst hjk
      cases (update_self ..).symm.trans hj
    · have hj : s.stack j = some (other, stage) := (update_of_ne hjk ..).symm.trans hj
      exact (h.staged j other stage hj).congr rfl rfl

theorem write (h : Served s) (hstep : write s k = some t) : Served t := by
  unfold Reply.write at hstep
  split at hstep
  · rename_i cmd a hstack
    cases hstep
    refine h.of_stack (mem_pending_of_stack hstack) rfl rfl rfl rfl rfl
      (fun b hb => update_of_ne hb ..) (fun _ _ => rfl) (pending_stage hstack _)
      (fun j hj => update_of_ne hj ..) (update_self ..) ?_
    refine ⟨by simp, ?_⟩
    intro hnone hbind
    exact (h.staged k cmd _ hstack hbind hnone).elim
  · rename_i cmd e hstack
    cases hstep
    refine h.of_stack (mem_pending_of_stack hstack) rfl rfl rfl rfl rfl (fun _ _ => rfl)
      (fun b hb => update_of_ne hb ..) (pending_stage hstack _)
      (fun j hj => update_of_ne hj ..) (update_self ..) ?_
    exact ⟨(h.staged k cmd _ hstack).1, fun _ _ => by simp⟩
  · rename_i cmd hstack
    cases hstep
    exact h.signal hstack
  · cases hstep

theorem start (h : Start s) : Served s where
  pooled :=
    { disjoint := h.disjoint
      nodup := by
        rw [h.pools]
        exact h.nodup
      home := by
        rw [h.pools]
        exact fun _ _ hb => hb
      held := by
        intro p c hc
        rw [h.pc] at hc
        cases hc
      sole := by
        rintro p q b ⟨c, hc, -⟩
        rw [h.pc] at hc
        cases hc
      kept := by
        intro k b hb
        rw [h.pools]
        exact .inl hb }
  nodup := by
    intro k
    simp [State.pending, h.stack, h.ring]
  asked := by
    intro k cmd hcmd
    simp [State.pending, h.stack, h.ring] at hcmd
  fits := by
    intro p
    rw [h.pc]
    trivial
  staged := by
    intro k cmd stage hk
    rw [h.stack] at hk
    cases hk
  own := by
    rw [h.results]
    exact fun _ hr => nomatch hr

theorem step (h : Served s) {a : Action} (hguard : Present s a) (hstep : step s a = some t) :
    Served t := by
  cases a with
  | take p c => exact h.take hstep
  | clear p => exact h.clear hstep
  | enqueue p full => exact h.enqueue hstep
  | poll p => exact h.poll hstep
  | read p => exact h.read hstep
  | free p => exact h.free hstep
  | dequeue k => exact h.dequeue hstep
  | execute k rv => exact h.execute hguard hstep
  | write k => exact h.write hstep
  | close k index =>
    cases hstep
    refine ⟨h.pooled.congr rfl rfl fun _ => rfl, h.nodup, h.asked, ?_, ?_, h.own⟩
    · intro q
      exact (h.fits q).congr (fun _ _ _ hmem => hmem) fun _ _ => ⟨rfl, rfl, rfl⟩
    · exact fun j cmd stage hj => (h.staged j cmd stage hj).congr rfl rfl

theorem of_reachable (hreach : system.ReachableUnder Present s) : Served s :=
  hreach.invariant (fun _ => start) fun _ _ _ h hguard hstep => h.step hguard hstep

theorem exec_returns (s : State) {id : Nat} (hpc : s.pc p = .polling c id)
    (hready : s.readySignal c.buf = true) :
    ∃ t, system.exec s [.poll p, .read p, .read p, .free p] = some t ∧ t.pc p = .idle := by
  refine ⟨Reply.putBack ({ (s.setPc p (.valueRead c)) with
    results := s.results ++ [⟨id, s.returnValue c.buf,
      if c.kind = .bind then some (s.returnErrno c.buf) else none⟩] }) p c, ?_, setPc_pc_self _⟩
  simp [TransitionSystem.exec, system, Reply.step, Reply.poll, Reply.read, Reply.free, hpc, hready,
    State.setPc]

theorem once (h : Pooled s) {b : Nat} (hb : b ∈ s.bufs k) :
    ((s.pools k).count b = 1 ∧ ∀ p, ¬ s.Holds p b) ∨
    ((s.pools k).count b = 0 ∧ ∃! p, s.Holds p b) := by
  by_cases hin : b ∈ s.pools k
  · refine .inl ⟨count_eq_one_of_mem (h.nodup k) hin, ?_⟩
    rintro p ⟨c, hc, rfl⟩
    exact h.notMem_of_held hc k hin
  · refine .inr ⟨count_eq_zero_of_not_mem hin, ?_⟩
    obtain ⟨p, hp⟩ := (h.kept k b hb).resolve_left hin
    exact ⟨p, hp, fun q hq => h.sole q p b hq hp⟩

theorem sound (h : Served s) : Sound s where
  returns := by
    intro p c id hpc hdone
    have hfits := h.fits p
    rw [hpc] at hfits
    exact exec_returns s hpc (hfits.resolve_left hdone).ready
  own := h.own
  once := fun k b hb => once h.pooled hb
  untouched := by
    intro k cmd hcmd j
    obtain ⟨hpoll, -, -⟩ := h.asked k cmd hcmd
    exact h.pooled.notMem_of_held (p := cmd.caller) (by rw [hpoll]; rfl) j

end Served

/-- As long as every bind command finds its socket, an answered call returns with what was written
for its command, and its buffer goes back once. -/
theorem reply_handshake_sound (s : State) (hreach : system.ReachableUnder Present s) : Sound s :=
  (Served.of_reachable hreach).sound

def oneBuffer : State where
  bufs := fun k => if k = 0 then [0] else []
  pools := fun k => if k = 0 then [0] else []
  readySignal := fun _ => false
  returnValue := fun _ => ⟨0, none⟩
  returnErrno := fun _ => ⟨0, none⟩
  pc := fun _ => .idle
  ring := fun _ => []
  stack := fun _ => none
  socket := fun _ _ => false
  next := 0
  results := []

theorem oneBuffer_start : Start oneBuffer where
  nodup := by
    intro k
    unfold oneBuffer
    dsimp only
    split
    · exact nodup_singleton 0
    · exact nodup_nil
  disjoint := by
    intro k j b hk hj
    unfold oneBuffer at hk hj
    dsimp only at hk hj
    split at hk
    · split at hj
      · exact Eq.trans ‹k = 0› (Eq.symm ‹j = 0›)
      · cases hj
    · cases hk
  pools := rfl
  pc := fun _ => rfl
  ring := fun _ => rfl
  stack := fun _ => rfl
  results := rfl

def wholeCall (p : Nat) (kind : Kind) (index rv : Nat) (writes : Nat) : List Action :=
  [Action.take p ⟨kind, index, 0, 0⟩, .clear p, .enqueue p false, .dequeue 0, .execute 0 rv] ++
    List.replicate writes (.write 0) ++ [Action.poll p, .read p, .read p, .free p]

theorem reply_handshake_sound_recycled : ∃ s, system.ReachableUnder Present s ∧
      decide (s.results.map Result.value = [⟨0, some 0⟩, ⟨-1, some 1⟩]) = true ∧ Sound s := by
  obtain ⟨s, hreach, htest⟩ := system.exists_reachableUnder Present
    oneBuffer (wholeCall 0 .openSocket 3 0 2 ++ wholeCall 1 .bind 3 98 3)
    (P := fun s => decide (s.results.map Result.value = [⟨0, some 0⟩, ⟨-1, some 1⟩]) = true)
    oneBuffer_start (by decide +kernel)
  exact ⟨s, hreach, htest, reply_handshake_sound s hreach⟩

theorem reply_handshake_stale_errno : ∃ s, system.Reachable s ∧
      decide (⟨3, ⟨-1, some 3⟩, some ⟨98, some 1⟩⟩ ∈ s.results) = true ∧ ¬ Sound s := by
  obtain ⟨s, hreach, htest⟩ := system.exists_reachable oneBuffer
    (wholeCall 0 .openSocket 3 0 2 ++ wholeCall 0 .bind 3 98 3 ++
      wholeCall 0 .openSocket 5 0 2 ++ [Action.close 0 5] ++ wholeCall 0 .bind 5 0 2)
    (P := fun s => decide (⟨3, ⟨-1, some 3⟩, some ⟨98, some 1⟩⟩ ∈ s.results) = true)
    oneBuffer_start (by decide +kernel)
  refine ⟨s, hreach, htest, fun hsound => ?_⟩
  have hown := (hsound.own _ (of_decide_eq_true htest)).2 _ rfl
  cases hown

end LightStack.Reply
