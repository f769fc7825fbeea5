import LightStack.Rx.Eof.Model
import LightStack.Rx.Recv.Stream

/-!
# All payload is returned before end of file

The signal is set before the payload still held by TCP reaches the ring.
-/

namespace LightStack.Rx.Eof

open Lib List
open Rx.Recv (Sock Call Request RecvPc Conserved AppMove)
open Rx.Recv (returnedBytes leftover ringBytes)

variable {cap : Nat}

def bytesBeforeEof (calls : List Call) : List UInt8 :=
  returnedBytes (calls.takeWhile fun c => c.ret ≠ 0)

def SawEof (calls : List Call) : Prop := ∃ c ∈ calls, c.ret = 0

instance (calls : List Call) : Decidable (SawEof calls) :=
  inferInstanceAs (Decidable (∃ c ∈ calls, c.ret = 0))

theorem bytesBeforeEof_append {calls : List Call} (heof : SawEof calls)
    (c : Call) : bytesBeforeEof (calls ++ [c]) = bytesBeforeEof calls := by
  obtain ⟨c', hmem, hzero⟩ := heof
  unfold bytesBeforeEof
  rw [takeWhile_append]
  split
  · rename_i hall
    have hsame := takeWhile_eq_self_iff.mp
      (List.takeWhile_prefix _ |>.eq_of_length hall) c' hmem
    simp [hzero] at hsame
  · rfl

theorem bytesBeforeEof_first {calls : List Call} (hnot : ¬ SawEof calls) {c : Call}
    (hzero : c.ret = 0) : bytesBeforeEof (calls ++ [c]) = returnedBytes calls := by
  have hall : ∀ c' ∈ calls, decide (c'.ret ≠ 0) = true := by
    intro c' hmem
    exact decide_eq_true fun h => hnot ⟨c', hmem, h⟩
  unfold bytesBeforeEof
  rw [takeWhile_append_of_pos hall]
  simp [hzero]

/-! ## What a receiver's step shares with the stack -/

def atLastSignal : RecvPc → Bool
  | .lastSignal _ => true
  | _ => false

section AppMove

variable {strict : Prop} {s t : Sock cap}

section

variable (hmove : AppMove strict s t)

include hmove

theorem signal_of_appMove : t.signal = s.signal := by
  cases hmove <;> rfl

theorem suffix_of_appMove : t.rxRing.items <:+ s.rxRing.items := by
  cases hmove with
  | delivered req r ring taken hr hring hsuffix => exact hsuffix
  | _ => exact suffix_rfl

theorem empty_of_appMove (hlast : atLastSignal t.pc = true) : t.rxRing.items = [] := by
  cases hmove with
  | moved pc rxKicks hwork hempty =>
    cases pc with
    | lastSignal req => exact hempty req rfl
    | _ => cases hlast
  | _ => cases hlast

theorem calls_of_appMove :
    t.calls = s.calls ∨ ∃ c, t.calls = s.calls ++ [c] ∧
      (c.ret = 0 → 3 ≤ s.signal ∧ atLastSignal s.pc = true) := by
  cases hmove with
  | delivered req r ring taken hr hring hsuffix =>
    refine Or.inr ⟨_, rfl, fun hzero => ?_⟩
    exact absurd hzero (Int.ne_of_gt hr.pos)
  | emptied req ret hwork hret =>
    refine Or.inr ⟨_, rfl, fun hzero => ?_⟩
    rcases hret with hneg | ⟨_, hsignal, hpc⟩
    · exact absurd hzero (Int.ne_of_lt hneg)
    · exact ⟨hsignal, by rw [hpc]; rfl⟩
  | _ => exact Or.inl rfl

end

end AppMove

def Countable (s : State cap) : Action → Prop
  | .app a => Recv.Countable s.sock a
  | _ => True

def DrainedAtClose (s : State cap) (a : Action) : Prop :=
  Countable s a ∧
    match a, s.stack with
    | .stack, .fatal =>
      s.pending = [] ∧
        (atLastSignal s.sock.pc = true → s.sock.rxRing.items = [])
    | _, _ => True

instance (s : State cap) (a : Action) : Decidable (Countable s a) := by
  unfold Countable
  split <;> infer_instance

instance (s : State cap) (a : Action) : Decidable (DrainedAtClose s a) := by
  unfold DrainedAtClose
  split <;> infer_instance

structure Complete (s : State cap) : Prop where
  stream : ∃ queued, Conserved False queued s.sock ∧
    s.received = queued ++ segmentBytes s.pending
  listed : s.closedQueuePresent = true → s.fin = true
  closing : s.stack = .fatal → s.fin = true
  signalled : s.stack = .kernelClose → 3 ≤ s.sock.signal
  closed : 3 ≤ s.sock.signal → s.fin = true ∧ s.pending = []
  last : 3 ≤ s.sock.signal → atLastSignal s.sock.pc = true → s.sock.rxRing.items = []
  budget : ∀ n, s.stack = .submit n → 0 < n ∧ 0 < s.sock.rxRing.freeCount
  eof : SawEof s.sock.calls → s.fin = true ∧ bytesBeforeEof s.sock.calls = s.received

theorem complete_start : Complete (start : State cap) where
  stream := ⟨[], Recv.conserved_fresh, rfl⟩
  listed := by simp [start]
  closing := by simp [start]
  signalled := by simp [start]
  closed := by simp [start, Recv.Sock.fresh]
  last := by simp [start, Recv.Sock.fresh]
  budget := by simp [start]
  eof := by simp [start, Recv.Sock.fresh, SawEof]

theorem Complete.returned_all {s : State cap} (hs : Complete s) (hsignal : 3 ≤ s.sock.signal)
    (hlast : atLastSignal s.sock.pc = true) : returnedBytes s.sock.calls = s.received := by
  obtain ⟨queued, hcons, hreceived⟩ := hs.stream
  obtain ⟨_, hpending⟩ := hs.closed hsignal
  have hring := hs.last hsignal hlast
  obtain ⟨req, hpc⟩ : ∃ req, s.sock.pc = .lastSignal req := by
    cases hpc : s.sock.pc with
    | lastSignal req => exact ⟨req, rfl⟩
    | _ => rw [hpc] at hlast; cases hlast
  have hwork : s.sock.pc.work = some (req, .fresh) := by rw [hpc]; rfl
  obtain ⟨_, _, hshadow⟩ := hcons.workOk req .fresh hwork
  have hstream := hcons.stream
  rw [hpc, hshadow] at hstream
  rw [hreceived, hpending, ← hstream]
  simp [ringBytes, hring, leftover, segmentBytes, RecvPc.held, RecvPc.work, Recv.Purpose.held]

theorem Complete.app {s : State cap} {sock : Sock cap} (hs : Complete s)
    (hmove : AppMove False s.sock sock) :
    Complete { s with sock := sock } where
  stream := by
    obtain ⟨queued, hcons, hreceived⟩ := hs.stream
    exact ⟨queued, hmove.conserved hcons, hreceived⟩
  listed := hs.listed
  closing := hs.closing
  signalled := by rw [signal_of_appMove hmove]; exact hs.signalled
  closed := by rw [signal_of_appMove hmove]; exact hs.closed
  last := fun _ hlast => empty_of_appMove hmove hlast
  budget := by
    intro n hn
    obtain ⟨hpos, hfree⟩ := hs.budget n hn
    have hle := (suffix_of_appMove hmove).length_le
    refine ⟨hpos, ?_⟩
    simp only [Ring.freeCount, Ring.count] at hfree ⊢
    omega
  eof := by
    intro heof
    rcases calls_of_appMove hmove with hsame | ⟨c, hcalls, hzero⟩
    · rw [hsame] at heof ⊢
      exact hs.eof heof
    · by_cases hbefore : SawEof s.sock.calls
      · rw [hcalls, bytesBeforeEof_append hbefore]
        exact hs.eof hbefore
      · have hret : c.ret = 0 := by
          obtain ⟨c', hmem, hret⟩ := heof
          rw [hcalls] at hmem
          rcases mem_append.mp hmem with hold | hnew
          · exact absurd ⟨c', hold, hret⟩ hbefore
          · rw [mem_singleton.mp hnew] at hret
            exact hret
        obtain ⟨hsignal, hlast⟩ := hzero hret
        rw [hcalls, bytesBeforeEof_first hbefore hret]
        exact ⟨(hs.closed hsignal).1, hs.returned_all hsignal hlast⟩

/-! ## Steps of the stack -/

theorem segmentBytes_append (segs segs' : List Segment) :
    segmentBytes (segs ++ segs') = segmentBytes segs ++ segmentBytes segs' := by
  simp [segmentBytes]

theorem payload_of_chainOf {segs : List Segment} {c : RxChain}
    (hc : chainOf segs = some c) : payload c.segs = segmentBytes segs := by
  cases segs with
  | nil => cases hc
  | cons m rest =>
    cases hc
    simp only [MbufChain.segs, payload_cons, segmentBytes, flatMap_cons]
    congr 1
    simp [payload]

theorem counted_of_chainOf {segs : List Segment} {c : RxChain}
    (hc : chainOf segs = some c) : c.Counted := by
  rw [MbufChain.Counted, payload_of_chainOf hc]
  cases segs with
  | nil => cases hc
  | cons m rest =>
    cases hc
    rfl

theorem receiveSegment_complete {s : State cap} (hs : Complete s) (m : Segment) (direct : Bool)
    (hfin : s.fin = false) : Complete (receiveSegment s m direct) := by
  have hsignal : ¬ 3 ≤ s.sock.signal := by
    intro hsignal
    have := (hs.closed hsignal).1
    rw [hfin] at this
    cases this
  have heof : ¬ SawEof s.sock.calls := by
    intro heof
    have := (hs.eof heof).1
    rw [hfin] at this
    cases this
  have hpending : (receiveSegment s m direct).pending = s.pending ++ [m] := by
    simp only [receiveSegment, State.pending]
    split
    · rename_i hcopy
      have hempty : s.receiveQueue = [] := by
        rw [Bool.and_eq_true, List.isEmpty_iff] at hcopy
        exact hcopy.2
      simp [hempty]
    · simp
  exact {
    stream := by
      obtain ⟨queued, hcons, hbytes⟩ := hs.stream
      refine ⟨queued, hcons, ?_⟩
      show s.received ++ m.val.data = _
      rw [hpending, segmentBytes_append, hbytes]
      simp [segmentBytes]
    listed := hs.listed
    closing := hs.closing
    signalled := hs.signalled
    closed := fun h => absurd h hsignal
    last := hs.last
    budget := hs.budget
    eof := fun h => absurd h heof }

theorem Complete.bookkeeping {s t : State cap} (hs : Complete s)
    (hring : t.sock.rxRing = s.sock.rxRing) (hshadow : t.sock.shadow = s.sock.shadow)
    (hcalls : t.sock.calls = s.sock.calls) (hpc : t.sock.pc = s.sock.pc)
    (hsignal : t.sock.signal = s.sock.signal) (hpending : t.pending = s.pending)
    (hreceived : t.received = s.received) (hfin : s.fin = true → t.fin = true)
    (hlisted : t.closedQueuePresent = true → t.fin = true)
    (hclosing : t.stack = .fatal → t.fin = true) (hstack : t.stack ≠ .kernelClose)
    (hbudget : ∀ n, t.stack = .submit n → 0 < n ∧ 0 < s.sock.rxRing.freeCount) :
    Complete t where
  stream := by
    obtain ⟨queued, hcons, hbytes⟩ := hs.stream
    refine ⟨queued, hcons.congr hring hshadow hcalls (by rw [hpc]), ?_⟩
    rw [hreceived, hpending, hbytes]
  listed := hlisted
  closing := hclosing
  signalled := fun h => absurd h hstack
  closed := by
    rw [hsignal, hpending]
    exact fun h => ⟨hfin (hs.closed h).1, (hs.closed h).2⟩
  last := by rw [hsignal, hpc, hring]; exact hs.last
  budget := by rw [hring]; exact hbudget
  eof := by
    rw [hcalls, hreceived]
    exact fun h => ⟨hfin (hs.eof h).1, (hs.eof h).2⟩

theorem setSignal_complete {s : State cap} (hs : Complete s) (hstack : s.stack = .fatal)
    (hpending : s.pending = []) (hlast : atLastSignal s.sock.pc = true → s.sock.rxRing.items = [])
    {signal : Nat} (hsignal : 3 ≤ signal) :
    Complete { s with
      sock := { s.sock with signal := signal }, stack := .kernelClose } where
  stream := by
    obtain ⟨queued, hcons, hbytes⟩ := hs.stream
    exact ⟨queued, hcons.congr rfl rfl rfl rfl, hbytes⟩
  listed := hs.listed
  closing := nofun
  signalled := fun _ => hsignal
  closed := fun _ => ⟨hs.closing hstack, hpending⟩
  last := fun _ => hlast
  budget := nofun
  eof := hs.eof

theorem submitPending_cases {s : State cap} {n : Nat} (hpos : 0 < n)
    (hfree : 0 < s.sock.rxRing.freeCount) :
    submitPending s n = { s with stack := .idle } ∨
    ∃ c ring, s.sock.rxRing.enqueue c = some ring ∧ s.pending ≠ [] ∧
      payload c.segs = segmentBytes s.pending ∧ c.Counted ∧
      submitPending s n = { s with
        sock := { s.sock with rxRing := ring }
        receiveQueue := []
        ucopy := []
        stack := .idle } := by
  rcases Option.eq_none_or_eq_some (chainOf s.pending) with hnone | ⟨c, hc⟩
  · left
    simp [submitPending, State.backlog, hnone, DataAvailable.submitLoop]
  · right
    have hbacklog : s.backlog = [c] := by simp [State.backlog, hc]
    have hroom : s.sock.rxRing.items.length < cap := by
      simp only [Ring.freeCount, Ring.count] at hfree
      omega
    obtain ⟨hring, hobtained, _, _⟩ :=
      DataAvailable.submitLoop_of_fits hpos s.sock.rxRing [] s.backlog
        (by rw [hbacklog]; exact hfree)
    refine ⟨c, (DataAvailable.submitLoop n s.sock.rxRing [] s.backlog).ring,
      Ring.enqueue_eq_some_iff.mpr ⟨hroom, ?_⟩, ?_, payload_of_chainOf hc,
      counted_of_chainOf hc, ?_⟩
    · rw [hring, hbacklog]
    · intro hempty
      rw [hempty] at hc
      cases hc
    · have hsome : (DataAvailable.submitLoop n s.sock.rxRing [] s.backlog).obtained ≠ [] := by
        rw [hobtained, hbacklog]
        exact cons_ne_nil c []
      simp only [submitPending, if_neg hsome]

theorem submitPending_complete {s : State cap} (hs : Complete s) {n : Nat}
    (hstack : s.stack = .submit n) : Complete (submitPending s n) := by
  obtain ⟨hpos, hfree⟩ := hs.budget n hstack
  rcases submitPending_cases hpos hfree with
    hnone | ⟨c, ring, henq, hpending, hbytes, hcounted, hsome⟩
  · rw [hnone]
    exact hs.bookkeeping rfl rfl rfl rfl rfl rfl rfl id hs.listed nofun nofun nofun
  · rw [hsome]
    have hsignal : ¬ 3 ≤ s.sock.signal := fun h => hpending (hs.closed h).2
    exact {
      stream := by
        obtain ⟨queued, hcons, hreceived⟩ := hs.stream
        refine ⟨queued ++ payload c.segs, hcons.enqueue (Or.inr hcounted) henq rfl rfl rfl rfl, ?_⟩
        show s.received = _ ++ segmentBytes []
        rw [hreceived, hbytes]
        exact (append_nil _).symm
      listed := hs.listed
      closing := nofun
      signalled := nofun
      closed := fun h => absurd h hsignal
      last := fun h => absurd h hsignal
      budget := nofun
      eof := hs.eof }

theorem stackStep_complete {s t : State cap} (hs : Complete s) (hguard : DrainedAtClose s .stack)
    (hstep : stackStep s = some t) : Complete t := by
  have hdrained := hguard.2
  cases hstack : s.stack with
  | idle => simp only [stackStep, hstack] at hstep; cases hstep
  | fatal =>
    simp only [stackStep, hstack, Option.some.injEq] at hstep
    simp only [hstack] at hdrained
    rw [← hstep]
    refine setSignal_complete hs hstack hdrained.1 hdrained.2 ?_
    split <;> decide
  | kernelClose =>
    simp only [stackStep, hstack, Option.some.injEq] at hstep
    rw [← hstep]
    have hempty := (hs.closed (hs.signalled hstack)).2
    have hqueue : s.receiveQueue = [] := (append_eq_nil_iff.mp hempty).2
    have hpending : s.ucopy ++ [] = s.ucopy ++ s.receiveQueue := by rw [hqueue]
    exact hs.bookkeeping rfl rfl rfl rfl rfl hpending rfl id nofun nofun nofun nofun
  | readList =>
    simp only [stackStep, hstack] at hstep
    split at hstep <;> cases hstep <;>
      exact hs.bookkeeping rfl rfl rfl rfl rfl rfl rfl id hs.listed nofun nofun nofun
  | count =>
    simp only [stackStep, hstack] at hstep
    split at hstep
    · rename_i hfree
      cases hstep
      refine hs.bookkeeping rfl rfl rfl rfl rfl rfl rfl id hs.listed nofun nofun ?_
      intro n hn
      cases hn
      exact ⟨hfree, hfree⟩
    · cases hstep
      exact hs.bookkeeping rfl rfl rfl rfl rfl rfl rfl id hs.listed nofun nofun nofun
  | submit n =>
    simp only [stackStep, hstack, Option.some.injEq] at hstep
    rw [← hstep]
    exact submitPending_complete hs hstack

theorem step_complete {s t : State cap} {a : Action} (hs : Complete s)
    (hguard : DrainedAtClose s a) (hstep : step s a = some t) : Complete t := by
  cases a with
  | app a =>
    obtain ⟨sock, hsock, rfl⟩ := Option.map_eq_some_iff.mp hstep
    obtain ⟨queued, hcons, _⟩ := hs.stream
    exact hs.app (Recv.appStep_appMove hcons False.elim hguard.1 False.elim hsock)
  | segment m direct =>
    simp only [step] at hstep
    split at hstep
    · rename_i hopen
      cases hstep
      exact receiveSegment_complete hs m direct hopen.2
    · cases hstep
  | fin =>
    simp only [step] at hstep
    split at hstep
    · rename_i hopen
      cases hstep
      refine hs.bookkeeping rfl rfl rfl rfl rfl rfl rfl (fun _ => rfl)
        (fun _ => rfl) (fun _ => rfl) ?_ hs.budget
      rw [hopen.1]
      nofun
    · cases hstep
  | round =>
    simp only [step] at hstep
    split at hstep
    · cases hstep
      refine hs.bookkeeping rfl rfl rfl rfl rfl rfl rfl id hs.listed ?_ ?_ ?_
      · intro hfatal
        by_contra hfin
        have hnot : s.closedQueuePresent = false := by
          by_contra h
          exact hfin (hs.listed (Bool.of_not_eq_false h))
        simp [hnot] at hfatal
      · split <;> nofun
      · split <;> nofun
    · cases hstep
  | rxKick =>
    simp only [step] at hstep
    split at hstep
    · cases hstep
      exact hs.bookkeeping rfl rfl rfl rfl rfl rfl rfl id hs.listed nofun nofun nofun
    · cases hstep
  | stack => exact stackStep_complete hs hguard hstep

/-- If TCP holds nothing and no receiver is past its last look at a ring with data when the signal
is set, all payload has been returned before a call returns 0. -/
theorem eof_after_all_payload {s : State cap}
    (hreach : (eofSystem cap).ReachableUnder DrainedAtClose s) (heof : SawEof s.sock.calls) :
    s.fin = true ∧ bytesBeforeEof s.sock.calls = s.received := by
  have hs : Complete s := by
    refine hreach.invariant ?_ ?_
    · intro s hinit
      rw [hinit]
      exact complete_start
    · intro s a t hs hguard hstep
      exact step_complete hs hguard hstep
  exact hs.eof heof

def twoBytes : Segment := ⟨Recv.filledMbuf [1, 2], by decide⟩

def readRound : List Action := [.round, .stack, .stack, .stack]

def closingRound : List Action := [.round, .stack, .stack, .stack, .stack, .stack]

def recvData : List Action := [.app (.call ⟨2, true⟩), .app (.kick true), .app .next, .app .next]

def recvEof : List Action :=
  [.app (.call ⟨2, true⟩), .app (.kick true), .app .next, .app .next, .app .next,
    .app .next, .app .next, .app .next, .app .next]

theorem eof_after_all_payload_separateRounds : ∃ s : State 1023,
      ((eofSystem 1023).ReachableUnder DrainedAtClose s ∧
        SawEof s.sock.calls ∧ s.received = [1, 2]) ∧
      s.fin = true ∧ bytesBeforeEof s.sock.calls = s.received := by
  obtain ⟨s, hreach, hrun⟩ :=
    (eofSystem 1023).exists_reachableUnder DrainedAtClose start
      ([Action.segment twoBytes true] ++ readRound ++ [Action.fin] ++ closingRound ++
        recvData ++ recvEof)
      (P := fun s => SawEof s.sock.calls ∧ s.received = [1, 2]) rfl (by decide)
  exact ⟨s, ⟨hreach, hrun⟩, eof_after_all_payload hreach hrun.1⟩

theorem eof_before_payload_sameRound :
    ∃ s : State 1023, (eofSystem 1023).ReachableUnder Countable s ∧
      s.fin = true ∧ s.received = [1, 2] ∧
      s.sock.calls = [⟨2, 0, []⟩] ∧
      bytesBeforeEof s.sock.calls ≠ s.received := by
  obtain ⟨s, hreach, hfin, hreceived, hcalls⟩ :=
    (eofSystem 1023).exists_reachableUnder Countable start
      ([Action.segment twoBytes true, .fin, .round, .stack] ++ recvEof)
      (P := fun s => s.fin = true ∧ s.received = [1, 2] ∧
        s.sock.calls = [⟨2, 0, []⟩]) rfl (by decide)
  refine ⟨s, hreach, hfin, hreceived, hcalls, ?_⟩
  rw [hcalls, hreceived]
  decide

end LightStack.Rx.Eof
