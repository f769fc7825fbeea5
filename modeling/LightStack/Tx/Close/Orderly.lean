import LightStack.Tx.Close.Model

/-!
# An orderly close keeps what was sent
-/

namespace LightStack.Tx.Close

open Lib Tx.Send List

variable {alloc : Nat → Option Nat} {s t : State}

structure KeepsSent (s : State) : Prop where
  discarded : s.discarded = []
  opened : s.Open → s.owed = s.sock.appendedBufs ++ s.sock.txRing.items
  closed : ¬ s.Open → s.owed <+: s.sock.appendedBufs

def Command.Flushes : Command → Prop
  | .txKick => False
  | .close => True
  | .shutdown how => how = 1 ∨ how = 2

instance (c : Command) : Decidable c.Flushes := by
  cases c <;> unfold Command.Flushes <;> infer_instance

def EndsDrained (alloc : Nat → Option Nat) (s : State) : Action → Prop
  | .process _ => ∀ c ∈ s.commands.items.head?, c.Flushes → s.reset ∨ s.sock.txRing.items = []
  | .processClosed _ => s.reset ∨ s.sock.txRing.items = []
  | .tx .sendpage => s.sock.txRing.items ≠ [] → alloc s.sock.allocs ≠ none
  | .foreign c _ => c.Flushes → s.reset
  | _ => True

instance (s : State) (a : Action) : Decidable (EndsDrained alloc s a) := by
  unfold EndsDrained
  split <;> infer_instance

/-! ## What a step can do -/

structure NoSend (s t : State) : Prop where
  sending : t.sock.sending = s.sock.sending
  writeSeq : t.sock.writeSeq = s.sock.writeSeq
  appended : t.sock.appended = s.sock.appended
  owed : t.owed = s.owed
  reset : s.reset = true → t.reset = true

/-- A step sends, changes nothing about sending, ends the sending side, or resets the connection. -/
inductive Move (alloc : Nat → Option Nat) (s : State) (a : Action) (t : State) :
    Prop
  | sends (b : TxAction) (k : Sock) (ha : a = .tx b)
      (hstep : txStep alloc s.sock b = some k) (ht : t = withSock s k)
  | keeps (hsame : NoSend s t) (hring : t.sock.txRing = s.sock.txRing)
      (hdiscarded : t.discarded = s.discarded) (hopen : t.Open ↔ s.Open)
      (hready : Ready s.sock → Ready t.sock)
  | ends (hsame : NoSend s t) (hring : t.discarded ++ t.sock.txRing.items =
        s.discarded ++ s.sock.txRing.items)
      (hclosed : (s.Open → Ready s.sock) → ¬ t.Open)
      (hdrained : EndsDrained alloc s a → s.reset = true ∨ s.sock.txRing.items = [])
  | resets (hsame : NoSend s t) (hreset : t.reset = true)

variable {a : Action} {n : Nat}

theorem Move.stays : Move alloc s a s := .keeps ⟨rfl, rfl, rfl, rfl, id⟩ rfl rfl Iff.rfl id

theorem not_open_of_sendShutdown (h : s.sock.sendShutdown = true) : ¬ s.Open := by
  rintro ⟨_, hopen⟩
  rw [h] at hopen
  cases hopen

theorem inetShutdown_not_open (hready : s.Open → Ready s.sock) (hattached : t.attached = s.attached)
    (hshutdown : t.sock.sendShutdown = (inetShutdown s.sock 1).sendShutdown) : ¬ t.Open := by
  rintro ⟨htattached, htshutdown⟩
  rw [hattached] at htattached
  rw [hshutdown] at htshutdown
  obtain ⟨hbefore, hstate⟩ := Bool.or_eq_false_iff.mp htshutdown
  have hconnecting : s.sock.state = .connecting := Decidable.not_not.mp (of_decide_eq_false hstate)
  rcases (hready ⟨htattached, hbefore⟩).state with hstate | hstate <;>
    rw [hstate] at hconnecting <;> cases hconnecting

theorem inetShutdown_keeps {how : Int} (hone : how ≠ 1) (htwo : how ≠ 2)
    (k : Sock) : (inetShutdown k how).sendShutdown = k.sendShutdown ∧
      (Ready k → Ready (inetShutdown k how)) := by
  have hsame : (inetShutdown k how).sendShutdown = k.sendShutdown := by
    simp [inetShutdown, hone, htwo]
  refine ⟨hsame, fun hready => ?_⟩
  refine ⟨?_, hready.skErr, hsame.trans hready.sendShutdown, hready.hasSocket⟩
  show shutdownState k.state how = _ ∨ shutdownState k.state how = _
  unfold shutdownState
  rcases hready.state with hstate | hstate <;> simp [hstate, hone, htwo]

theorem meet_attached (s : State) (unread : Bool) (c : Command) :
    (meet s unread c).attached = s.attached := by
  cases c with
  | txKick | close => rfl
  | shutdown how =>
    simp only [meet]
    split_ifs <;> rfl

/-- The socket is met through some satellite entry, whose own pointer may be cleared. -/
theorem meet_move {c : Command} {attached : Bool} (unread crashed : Bool)
    (commands : Ring Command 32767) (hattached : c.closes = true ∨ attached = s.attached)
    (hdrained : c.Flushes → EndsDrained alloc s a → s.reset = true ∨ s.sock.txRing.items = []) :
    Move alloc s a { meet { s with commands := commands } unread c with
      attached := attached, crashed := crashed } := by
  cases c with
  | txKick =>
    obtain rfl := hattached.resolve_left Bool.false_ne_true
    exact .keeps ⟨rfl, rfl, rfl, rfl, id⟩ rfl rfl Iff.rfl fun hready =>
      ⟨hready.state, hready.skErr, hready.sendShutdown, hready.hasSocket⟩
  | close =>
    exact .ends ⟨rfl, rfl, rfl, rfl, id⟩ (append_nil _)
      (fun _ => not_open_of_sendShutdown rfl) (hdrained trivial)
  | shutdown how =>
    by_cases htwo : how = 2
    · subst htwo
      exact .ends ⟨rfl, rfl, rfl, rfl, id⟩ (append_nil _)
        (fun _ => not_open_of_sendShutdown rfl) (hdrained (.inr rfl))
    by_cases hone : how = 1
    · subst hone
      obtain rfl := hattached.resolve_left (by decide)
      exact .ends ⟨rfl, rfl, rfl, rfl, id⟩ (append_nil _)
        (fun hready => inetShutdown_not_open hready rfl rfl) (hdrained (.inl rfl))
    · obtain rfl := hattached.resolve_left (by simpa [Command.closes] using htwo)
      obtain ⟨hsame, hready⟩ := inetShutdown_keeps hone htwo s.sock
      simp only [meet, if_neg htwo, if_neg hone]
      refine .keeps ⟨rfl, rfl, rfl, rfl, id⟩ rfl rfl ?_ hready
      show (s.attached ∧ (inetShutdown s.sock how).sendShutdown = false) ↔ _
      rw [hsame]
      rfl

theorem flushes_of_closes {c : Command} (h : c.closes = true) : c.Flushes := by
  rcases Bool.or_eq_true_iff.mp h with h | h
  · rw [of_decide_eq_true h]
    trivial
  · rw [of_decide_eq_true h]
    exact .inr rfl

theorem processCommand_move {c : Command} (unread : Bool)
    (commands : Ring Command 32767) (hhead : s.commands.items.head? = some c) :
    Move alloc s (.process unread) (processCommand { s with commands := commands } unread c) := by
  have hdrained : c.Flushes → EndsDrained alloc s (.process unread) →
      s.reset = true ∨ s.sock.txRing.items = [] := fun hflushes hguard =>
    hguard c hhead hflushes
  have hstays : ∀ t : State, t.sock = s.sock → t.owed = s.owed → t.reset = s.reset →
      t.discarded = s.discarded → t.attached = s.attached → Move alloc s (.process unread) t := by
    rintro t hsock howed hreset hdiscarded hattached
    refine .keeps ⟨?_, ?_, ?_, howed, fun h => hreset.trans h⟩ ?_ hdiscarded ?_ ?_ <;>
      simp [hsock, State.Open, hattached]
  unfold processCommand
  split
  · rename_i hattached
    cases hcloses : c.closes with
    | true =>
      split
      · exact meet_move unread _ commands (.inl hcloses) hdrained
      · -- the socket of the index is gone: only its pointer is cleared
        exact .ends ⟨rfl, rfl, rfl, rfl, id⟩ rfl (fun _ hopen => Bool.false_ne_true hopen.1)
          (hdrained (flushes_of_closes hcloses))
    | false =>
      split
      · exact meet_move unread _ commands (.inr hattached.symm) hdrained
      · exact hstays _ rfl rfl rfl rfl hattached.symm
  · exact hstays _ rfl rfl rfl rfl rfl

theorem tcpFin_move : Move alloc s .fin (tcpFin s) := by
  refine .keeps ⟨rfl, rfl, rfl, rfl, id⟩ rfl rfl Iff.rfl fun hready => ?_
  refine ⟨?_, hready.skErr, hready.sendShutdown, hready.hasSocket⟩
  rcases hready.state with hstate | hstate <;> simp [tcpFin, skStateChange, hstate]

theorem step_move (hstep : step alloc s a = some t) : Move alloc s a t := by
  cases a with
  | idle =>
    cases hstep
    exact .stays
  | tx b =>
    simp only [step] at hstep
    split at hstep
    · cases hstep
    · obtain ⟨k, hk, rfl⟩ := Option.map_eq_some_iff.mp hstep
      exact .sends b k rfl hk rfl
  | post c =>
    simp only [step] at hstep
    split at hstep
    · cases hstep
    · obtain ⟨commands, _, rfl⟩ := Option.map_eq_some_iff.mp hstep
      exact .keeps ⟨rfl, rfl, rfl, rfl, id⟩ rfl rfl Iff.rfl fun hready =>
        ⟨hready.state, hready.skErr, hready.sendShutdown, hready.hasSocket⟩
  | process unread =>
    simp only [step] at hstep
    split at hstep
    · cases hstep
    · obtain ⟨⟨c, commands⟩, hdequeue, rfl⟩ := Option.map_eq_some_iff.mp hstep
      have hitems := Ring.dequeue_eq_some_iff.mp hdequeue
      exact processCommand_move unread commands (by rw [hitems]; rfl)
  | fin =>
    simp only [step] at hstep
    split at hstep
    · cases hstep
    · cases hstep
      exact tcpFin_move
  | rst =>
    simp only [step] at hstep
    split at hstep
    · cases hstep
    · cases hstep
      unfold tcpReset
      split
      · exact .stays
      · exact .resets ⟨rfl, rfl, rfl, rfl, fun _ => rfl⟩ rfl
  | processClosed unread =>
    simp only [step] at hstep
    split at hstep
    · cases hstep
    · cases hstep
      exact .ends ⟨rfl, rfl, rfl, rfl, id⟩ rfl (fun _ => not_open_of_sendShutdown rfl) id
  | reused =>
    simp only [step] at hstep
    split at hstep
    · cases hstep
    · cases hstep
      exact .keeps ⟨rfl, rfl, rfl, rfl, id⟩ rfl rfl Iff.rfl id
  | foreign c unread =>
    simp only [step] at hstep
    split at hstep
    · cases hstep
    · cases hstep
      exact meet_move unread _ s.commands (.inr (meet_attached s unread c))
        fun hflushes hguard => .inl (hguard hflushes)

structure Kept (s : State) : Prop where
  filled : Filled s.sock
  keeps : KeepsSent s
  ready : s.Open → Ready s.sock

theorem KeepsSent.owed_appended (h : KeepsSent s)
    (hempty : s.sock.txRing.items = []) : s.owed <+: s.sock.appendedBufs := by
  by_cases hopen : s.Open
  · rw [h.opened hopen, hempty, append_nil]
  · exact h.closed hopen

theorem NoSend.appendedBufs_eq (h : NoSend s t) : t.sock.appendedBufs = s.sock.appendedBufs := by
  rw [Sock.appendedBufs, Sock.appendedBufs, h.appended]

theorem NoSend.filled (h : NoSend s t) (hfilled : Filled s.sock)
    (hring : ∀ b ∈ t.sock.txRing.items, b ∈ s.sock.txRing.items) : Filled t.sock := by
  refine ⟨fun b hb => hfilled.ring b (hring b hb), ?_, ?_⟩
  · rw [h.sending]
    exact hfilled.sending
  · rw [h.writeSeq]
    exact hfilled.writeSeq

theorem withSock_open {k : Sock} (h : SameConn s.sock k) : (withSock s k).Open ↔ s.Open := by
  show (s.attached ∧ k.sendShutdown = false) ↔ _
  rw [h.sendShutdown]
  rfl

theorem withSock_kept {a : TxAction} {k : Sock} (h : Kept s) (hguard : EndsDrained alloc s (.tx a))
    (hstep : txStep alloc s.sock a = some k) : Kept (withSock s k) := by
  obtain ⟨hmove, hfilled⟩ := txStep_txMove h.filled hstep
  have hsame := txStep_sameConn h.filled hstep
  have hopen := withSock_open hsame
  refine ⟨hfilled, ⟨h.keeps.discarded, ?_, ?_⟩, ?_⟩
  · intro ho
    have hs := hopen.mp ho
    show (if s.Open then s.owed ++ k.enqueued.drop s.sock.enqueued.length
      else s.owed) = k.appendedBufs ++ k.txRing.items
    rw [if_pos hs, h.keeps.opened hs]
    cases hmove with
    | quiet hring henqueued happended hallocs =>
      rw [henqueued, drop_length, append_nil, Sock.appendedBufs,
        Sock.appendedBufs, happended, hring]
    | sent bufs hring henqueued happended hallocs =>
      rw [henqueued, drop_left, Sock.appendedBufs, Sock.appendedBufs,
        happended, hring, append_assoc]
    | appended b hring henqueued happended hallocs halloc =>
      rw [henqueued, drop_length, append_nil, happended, hring, append_assoc]
      rfl
    | lost b ha hring henqueued happended hallocs halloc =>
      rw [ha] at hguard
      exact absurd halloc (hguard (by rw [hring]; exact cons_ne_nil _ _))
  · intro ho
    have hs : ¬ s.Open := fun hs => ho (hopen.mpr hs)
    show (if s.Open then s.owed ++ k.enqueued.drop s.sock.enqueued.length
      else s.owed) <+: k.appendedBufs
    rw [if_neg hs]
    exact (h.keeps.closed hs).trans hmove.appended_le
  · intro ho
    exact hsame.ready (h.ready (hopen.mp ho))

theorem Move.kept (hmove : Move alloc s a t) (h : Kept s) (hreset : s.reset = false)
    (hguard : EndsDrained alloc s a) : t.reset = true ∨ Kept t := by
  cases hmove with
  | sends b k ha hstep ht =>
    rw [ha] at hguard
    rw [ht]
    exact Or.inr (withSock_kept h hguard hstep)
  | keeps hsame hring hdiscarded hopen hready =>
    refine Or.inr ⟨hsame.filled h.filled (by rw [hring]; exact fun _ => id), ?_,
      fun ho => hready (h.ready (hopen.mp ho))⟩
    refine ⟨hdiscarded.trans h.keeps.discarded, ?_, ?_⟩
    · rw [hopen, hsame.owed, hsame.appendedBufs_eq, hring]
      exact h.keeps.opened
    · rw [hopen, hsame.owed, hsame.appendedBufs_eq]
      exact h.keeps.closed
  | ends hsame hring hclosed hdrained =>
    have hempty : s.sock.txRing.items = [] := by
      have hcases := hdrained hguard
      rw [hreset] at hcases
      exact hcases.resolve_left nofun
    rw [h.keeps.discarded, hempty, append_nil] at hring
    obtain ⟨hdiscarded, hring⟩ := append_eq_nil_iff.mp hring
    have hnot := hclosed h.ready
    refine Or.inr ⟨hsame.filled h.filled (by rw [hring]; nofun), ?_, fun ho => absurd ho hnot⟩
    refine ⟨hdiscarded, fun ho => absurd ho hnot, fun _ => ?_⟩
    rw [hsame.owed, hsame.appendedBufs_eq]
    exact h.keeps.owed_appended hempty
  | resets hsame hreset => exact Or.inl hreset

theorem kept_start {isn : Nat} (hisn : isn < 2 ^ 32) (sndbuf : Int) :
    Kept (State.start isn sndbuf) :=
  ⟨⟨nofun, nofun, hisn⟩, ⟨rfl, fun _ => rfl, fun _ => prefix_refl _⟩,
    fun _ => ⟨Or.inl rfl, rfl, rfl, rfl⟩⟩

def ResetOrKept (s : State) : Prop := s.reset = true ∨ Kept s

structure Grows (s t : State) : Prop where
  reset : s.reset = true → t.reset = true
  owed : t.reset = true ∨ s.owed <+: t.owed
  appended : t.reset = true ∨ s.sock.appendedBufs <+: t.sock.appendedBufs

theorem Grows.refl (s : State) : Grows s s :=
  ⟨id, Or.inr (prefix_refl _), Or.inr (prefix_refl _)⟩

theorem Grows.trans {u : State} (h : Grows s t) (h' : Grows t u) : Grows s u := by
  refine ⟨h'.reset ∘ h.reset, ?_, ?_⟩
  · rcases h.owed with hreset | howed
    · exact Or.inl (h'.reset hreset)
    · exact h'.owed.imp_right howed.trans
  · rcases h.appended with hreset | happended
    · exact Or.inl (h'.reset hreset)
    · exact h'.appended.imp_right happended.trans

theorem NoSend.grows (h : NoSend s t) : Grows s t := by
  refine ⟨h.reset, Or.inr ?_, Or.inr ?_⟩
  · rw [h.owed]
  · rw [h.appendedBufs_eq]

theorem Move.grows (hmove : Move alloc s a t) (h : ResetOrKept s) : Grows s t := by
  cases hmove with
  | sends b k ha hstep ht =>
    rw [ht]
    refine ⟨id, ?_, h.imp_right fun hkept => (txStep_txMove hkept.filled hstep).1.appended_le⟩
    right
    show s.owed <+: if s.Open then _ else s.owed
    split
    · exact prefix_append _ _
    · exact prefix_refl _
  | keeps hsame hring hdiscarded hopen hready | ends hsame hring hclosed hdrained
      | resets hsame hreset =>
    exact hsame.grows

def CallsSendpages (s : State) : Action → Prop
  | .tx .sendpage => 0 < s.sock.wspace
  | _ => False

theorem Kept.progress (h : Kept s) (hopen : s.Open)
    (hring : s.sock.txRing.items ≠ []) (hguard : EndsDrained alloc s a)
    (hcalls : CallsSendpages s a) (hstep : step alloc s a = some t) :
    s.sock.appendedBufs.length < t.sock.appendedBufs.length := by
  unfold CallsSendpages at hcalls
  split at hcalls
  · obtain ⟨⟨b, ring⟩, hdequeue⟩ := Option.ne_none_iff_exists'.mp
      (mt Ring.dequeue_eq_none_iff.mp hring)
    have hitems := Ring.dequeue_eq_some_iff.mp hdequeue
    simp only [step] at hstep
    split at hstep
    · cases hstep
    · obtain ⟨k, hk, rfl⟩ := Option.map_eq_some_iff.mp hstep
      have happended := sendpage_appends h.filled (h.ready hopen) hcalls hitems (hguard hring) hk
      show _ < k.appendedBufs.length
      rw [happended, length_append]
      exact Nat.lt_succ_self _
  · cases hcalls

/-! ## Whole runs -/

section Runs

variable (run : (closeSystem alloc).RunUnder (EndsDrained alloc))

theorem run_resetOrKept (n : Nat) : ResetOrKept (run.state n) := by
  refine (run.reachable n).invariant ?_ ?_
  · rintro _ ⟨isn, sndbuf, hisn, rfl⟩
    exact Or.inr (kept_start hisn sndbuf)
  · intro s a t hs hguard hstep
    have hmove := step_move hstep
    cases hreset : s.reset with
    | true => exact Or.inl ((hmove.grows hs).reset hreset)
    | false =>
      rw [ResetOrKept, hreset] at hs
      exact hmove.kept (hs.resolve_left nofun) hreset hguard

theorem run_kept (hreset : (run.state n).reset = false) : Kept (run.state n) := by
  refine (run_resetOrKept run n).resolve_left ?_
  rw [hreset]
  nofun

theorem run_grows {m : Nat} (hle : n ≤ m) : Grows (run.state n) (run.state m) :=
  run.rel_of_le Grows.refl (fun _ _ _ => Grows.trans)
    (fun k => (step_move (run.step k)).grows (run_resetOrKept run k)) hle

def Fair : Prop :=
  ∀ n, (∀ m, n ≤ m → (run.state m).Open ∧ (run.state m).sock.txRing.items ≠ []) →
    ∃ m, n ≤ m ∧ CallsSendpages (run.state m) (run.action m)

theorem run_appends (hfair : Fair run)
    (hbusy : ∀ m, n ≤ m → (run.state m).reset = false ∧ (run.state m).Open ∧
      (run.state m).sock.txRing.items ≠ []) (k : Nat) :
    ∃ m, n ≤ m ∧ k ≤ (run.state m).sock.appendedBufs.length := by
  refine TransitionSystem.exists_ge_of_progress fun p hp _ => ?_
  obtain ⟨q, hpq, hcalls⟩ := hfair p fun m hm => (hbusy m (Nat.le_trans hp hm)).2
  obtain ⟨hreset, hopen, hring⟩ := hbusy q (Nat.le_trans hp hpq)
  have hmore := (run_kept run hreset).progress hopen hring (run.guarded q) hcalls (run.step q)
  have hgrown : (run.state p).sock.appendedBufs <+: (run.state q).sock.appendedBufs := by
    refine (run_grows run hpq).appended.resolve_left ?_
    rw [hreset]
    nofun
  exact ⟨q + 1, Nat.le_succ_of_le hpq, Nat.lt_of_le_of_lt hgrown.length_le hmore⟩

end Runs

def sendThenClose : List Action :=
  [.tx (.fill [1] 10 1000000), .tx .enqueue, .post .txKick, .process false,
    .tx .sendpage, .tx .sendpage, .post .close, .process false]

def sendThenCloseState : Nat → State
  | 0 => State.start 5 100000
  | n + 1 =>
    (step (fun _ => some 768) (sendThenCloseState n)
      (sendThenClose.getD n .idle)).getD (sendThenCloseState n)

theorem sendThenClose_idle (hn : 8 ≤ n) : sendThenClose.getD n .idle = .idle := by
  rw [List.getD_eq_getElem?_getD, List.getElem?_eq_none hn, Option.getD_none]

def sendThenCloseRun : (closeSystem fun _ => some 768).RunUnder
    (EndsDrained fun _ => some 768) where
  state := sendThenCloseState
  action n := sendThenClose.getD n .idle
  init := ⟨5, 100000, by decide, rfl⟩
  guarded n := by
    rcases Nat.lt_or_ge n 8 with hn | hn
    · have hall : ∀ n < 8, EndsDrained (fun _ => some 768) (sendThenCloseState n)
          (sendThenClose.getD n .idle) := by decide
      exact hall n hn
    · rw [sendThenClose_idle hn]
      trivial
  step n := by
    have hsome : (step (fun _ => some 768) (sendThenCloseState n)
        (sendThenClose.getD n .idle)).isSome := by
      rcases Nat.lt_or_ge n 8 with hn | hn
      · have hall : ∀ n < 8, (step (fun _ => some 768) (sendThenCloseState n)
            (sendThenClose.getD n .idle)).isSome := by decide
        exact hall n hn
      · rw [sendThenClose_idle hn]
        rfl
    obtain ⟨t, ht⟩ := Option.isSome_iff_exists.mp hsome
    show step _ _ _ = some ((step _ _ _).getD _)
    rw [ht]
    rfl

theorem sendThenClose_attached (hn : 8 ≤ n) : (sendThenCloseState n).attached = false := by
  induction hn with
  | refl => decide
  | step hn ih =>
    rw [sendThenCloseState, sendThenClose_idle hn]
    exact ih

def fullSendBuffer : List Action :=
  [.tx (.fill [1] 10 1000000), .tx .enqueue, .tx (.fill [2] 10 1000000),
    .tx .enqueue, .tx (.fill [3] 10 1000000), .tx .enqueue, .post .txKick,
    .process false, .tx .sendpage, .tx .sendpage, .tx .sendpage]

def LosesSent (ending : List Action) : Prop :=
  ∃ s, (closeSystem fun _ => some 768).Reachable s ∧
    (closeSystem fun _ => some 768).exec (State.start 5 1000) (fullSendBuffer ++ ending) = some s ∧
    s.reset = false ∧ ¬ KeepsSent s

theorem losesSent_of_exec {ending : List Action}
    (hrun : ((closeSystem fun _ => some 768).exec (State.start 5 1000)
      (fullSendBuffer ++ ending)).any (fun s => !s.reset &&
        (s.discarded ≠ [] || ¬ s.Open ∧ ¬ s.owed <+: s.sock.appendedBufs)) =
      true) : LosesSent ending := by
  obtain ⟨s, hs, htest⟩ := (Option.any_eq_true _ _).mp hrun
  have hstart : (closeSystem fun _ => some 768).Reachable (State.start 5 1000) :=
    .start ⟨5, 1000, by decide, rfl⟩
  obtain ⟨hreset, hlost⟩ := Bool.and_eq_true_iff.mp htest
  refine ⟨s, hstart.exec hs, hs, by simpa using hreset, fun hkeeps => ?_⟩
  rcases Bool.or_eq_true_iff.mp hlost with hdiscarded | hclosed
  · exact of_decide_eq_true hdiscarded hkeeps.discarded
  · have hclosed := of_decide_eq_true hclosed
    exact hclosed.2 (hkeeps.closed hclosed.1)

end LightStack.Tx.Close
