import LightStack.Epoll.Cover

/-!
# `EPOLLOUT` of TCP sockets

`user_transmitted_callback` returns credit and posts nothing.
-/

namespace LightStack.Epoll.Writable

open Lib Function

def pktPayloadMaxSize : Int := 1448

structure State (cfg : Config) where
  epoll : Epoll.State cfg
  registered : Sock → Bool
  early : Sock → Nat
  txSpace : Sock → Int
  room : Sock → Bool

inductive Action (cfg : Config) where
  | epoll (a : Epoll.Action cfg)
  | ctl (sock : Sock) (stored : Bool)
  | setEarly (sock : Sock) (length : Nat)
  | send (sock : Sock) (length : Nat)
  | setTxSpace (sock : Sock) (space : Int)
  | setRoom (sock : Sock) (room : Bool)
  | transmitted (sock : Sock) (dataLen : Nat)

variable {cfg : Config}

def checkBuffer (s : State cfg) (sock : Sock) : Bool :=
  s.room sock && decide (0 < (s.txSpace sock).tdiv pktPayloadMaxSize)

def refresh (s : State cfg) (sock : Sock) : State cfg :=
  { s with
    epoll := { s.epoll with
      txSpace := update s.epoll.txSpace sock (checkBuffer s sock) } }

def userTransmittedCallback (s : State cfg) (sock : Sock) (dataLen : Nat) : State cfg :=
  refresh { s with txSpace := update s.txSpace sock (s.txSpace sock + dataLen) } sock

def sendBulk (s : State cfg) (sock : Sock) (length : Nat) : State cfg :=
  refresh { s with txSpace := update s.txSpace sock (s.txSpace sock - length) } sock

def addEpollEventToShadow (e : Epoll.State cfg) (info : EventInfo) (stored : Bool) :
    Epoll.State cfg :=
  if e.bit info || !stored then e
  else { e with shadow := e.shadow ++ [info], bit := update e.bit info true }

def queueData (s : State cfg) (sock : Sock) (stored : Bool) : Epoll.State cfg :=
  let e := { s.epoll with
    rx := update s.epoll.rx sock (s.epoll.rx sock + s.early sock) }
  if cfg.interested ⟨sock, .epollin⟩ && decide (0 < e.rx sock) then
    addEpollEventToShadow e ⟨sock, .epollin⟩ stored
  else e

def lightEpollCtl (s : State cfg) (sock : Sock) (stored : Bool) : State cfg :=
  { s with
    registered := update s.registered sock true
    early := update s.early sock 0
    epoll := if cfg.interested ⟨sock, .epollout⟩ && checkBuffer s sock then
        addEpollEventToShadow (queueData s sock stored) ⟨sock, .epollout⟩ stored
      else queueData s sock stored }

def looksUp : Epoll.Action cfg → Option Sock
  | .recv sock => some sock
  | .submitRxBuf _ sock => some sock
  | .post _ info => some info.sockfd
  | _ => none

def step (s : State cfg) : Action cfg → Option (State cfg)
  | .epoll (.setTxSpace _ _) => none
  | .epoll a =>
    if (looksUp a).all s.registered then
      (Epoll.step s.epoll a).map fun e => { s with epoll := e }
    else none
  | .ctl sock stored =>
    if s.epoll.wait = .outside ∧ s.epoll.lock = none then some (lightEpollCtl s sock stored)
    else none
  | .setEarly sock length =>
    if s.registered sock then none
    else some { s with early := update s.early sock length }
  | .send sock length => some (sendBulk s sock length)
  | .setTxSpace sock space => some (refresh { s with txSpace := update s.txSpace sock space } sock)
  | .setRoom sock room => some (refresh { s with room := update s.room sock room } sock)
  | .transmitted sock dataLen => some (userTransmittedCallback s sock dataLen)

structure Start (s : State cfg) : Prop where
  epoll_eq : s.epoll = { Epoll.start cfg with txSpace := checkBuffer s }
  registered_eq : ∀ sock, s.registered sock = false

def system (cfg : Config) : TransitionSystem (State cfg) (Action cfg) where
  init := Start
  step := step

def BecomesWritable (s t : State cfg) (sock : Sock) : Prop :=
  s.txSpace sock < pktPayloadMaxSize ∧ pktPayloadMaxSize ≤ t.txSpace sock

def WatchesOut (s : State cfg) (sock : Sock) : Prop :=
  s.registered sock = true ∧ cfg.interested ⟨sock, .epollout⟩ = true ∧
    notRearmed cfg ⟨sock, .epollout⟩ = false

def dropsOut (e : Epoll.State cfg) : Bool :=
  match e.wait with
  | .testAvailable _ info => decide (info.event = .epollout) && !eventAvailable e info
  | _ => false

/-- The socket is writable when it is registered and whenever it is tested, the windows do not
overlap, nothing is exhausted, and data is freed while nobody has the event in hand. -/
def Watched (s : State cfg) : Action cfg → Prop
  | .epoll .app => WindowsDisjoint s.epoll .app ∧ dropsOut s.epoll = false
  | .epoll a => WindowsDisjoint s.epoll a
  | .ctl sock stored => s.registered sock = true ∨ stored = true ∧ checkBuffer s sock = true
  | .transmitted sock _ =>
    s.epoll.wait.window ≠ some ⟨sock, .epollout⟩ ∧
      ⟨sock, .epollout⟩ ∉ s.epoll.wait.owed s.epoll.events ∧
        ∀ p, (s.epoll.post p).pending ≠ some ⟨sock, .epollout⟩
  | _ => True

instance (s : State cfg) (a : Action cfg) : Decidable (Watched s a) := by
  unfold Watched
  split <;> infer_instance

/-! ## Every run -/

/-- The `EPOLLOUT` of a registered socket that is watched for it. -/
def Out (s : State cfg) (info : EventInfo) : Prop :=
  ∃ sock, info = ⟨sock, .epollout⟩ ∧ WatchesOut s sock

abbrev Kept (s : State cfg) : Prop := EventsKept (Out s) s.epoll

section

variable {s t : State cfg} {e : Epoll.State cfg} {D : EventInfo → Prop} {info : EventInfo}
  {sock : Sock} {stored : Bool}

theorem addEpollEventToShadow_wait (e : Epoll.State cfg) (info : EventInfo) (stored : Bool) :
    (addEpollEventToShadow e info stored).wait = e.wait := by
  unfold addEpollEventToShadow
  split <;> rfl

theorem addEpollEventToShadow_kept (h : EventsKept D e) (hwait : e.wait = .outside)
    (info : EventInfo) (stored : Bool) :
    EventsKept (fun i => D i ∨ i = info ∧ stored = true)
      (addEpollEventToShadow e info stored) := by
  unfold addEpollEventToShadow
  split
  · rename_i hcond
    refine { h with covered := ?_ }
    rintro i (hi | ⟨rfl, rfl⟩)
    · exact h.covered i hi
    · exact .marked (by simpa using hcond) (by simp [hwait])
  · have hqueue : Tracks D (Queued { e with shadow := e.shadow ++ [info] }) e.bit e.post e.wait
        e.events :=
      h.pass (fun i hi => hi.imp_left (List.mem_append_left _)) (by simp [hwait])
        (by simp [hwait]) (by simp [hwait]) fun _ _ hi => hi
    exact (hqueue.mark (.inl (by simp)) (by simp [hwait])).mono fun i hi => hi.imp_right And.left

theorem queueData_wait (s : State cfg) (sock : Sock) (stored : Bool) :
    (queueData s sock stored).wait = s.epoll.wait := by
  unfold queueData
  dsimp only
  split
  · exact addEpollEventToShadow_wait ..
  · rfl

theorem queueData_kept (h : EventsKept D s.epoll) (hwait : s.epoll.wait = .outside) :
    EventsKept D (queueData s sock stored) := by
  unfold queueData
  dsimp only
  split
  · refine Tracks.mono (addEpollEventToShadow_kept ?_ ?_ _ _) fun i hi => .inl hi
    · exact h
    · exact hwait
  · exact h

theorem lightEpollCtl_kept (h : Kept s)
    (hguard : s.registered sock = true ∨ stored = true ∧ checkBuffer s sock = true)
    (hwait : s.epoll.wait = .outside) :
    Kept (lightEpollCtl s sock stored) := by
  have hdata : EventsKept (Out s) (queueData s sock stored) := queueData_kept h hwait
  have hold : ∀ k, WatchesOut (lightEpollCtl s sock stored) k → k ≠ sock → WatchesOut s k :=
    fun k hwatch hk => ⟨by simpa [lightEpollCtl, hk] using hwatch.1, hwatch.2⟩
  have hadd := addEpollEventToShadow_kept hdata ((queueData_wait ..).trans hwait)
    ⟨sock, .epollout⟩ stored
  by_cases hreg : s.registered sock = true
  · have hD : ∀ i, Out (lightEpollCtl s sock stored) i → Out s i := by
      rintro i ⟨k, rfl, hwatch⟩
      by_cases hk : k = sock
      · exact ⟨k, rfl, hk ▸ hreg, hwatch.2⟩
      · exact ⟨k, rfl, hold k hwatch hk⟩
    simp only [lightEpollCtl]
    split
    · exact hadd.mono fun i hi => .inl (hD i hi)
    · exact hdata.mono hD
  · obtain ⟨rfl, hbuffer⟩ := hguard.resolve_left hreg
    by_cases hint : cfg.interested ⟨sock, .epollout⟩ = true
    · simp only [lightEpollCtl, hint, hbuffer, Bool.and_self, if_true]
      refine hadd.mono ?_
      rintro i ⟨k, rfl, hwatch⟩
      by_cases hk : k = sock
      · exact .inr ⟨by rw [hk], rfl⟩
      · exact .inl ⟨k, rfl, hold k hwatch hk⟩
    · simp only [lightEpollCtl, hint, Bool.false_and]
      refine hdata.mono ?_
      rintro i ⟨k, rfl, hwatch⟩
      refine ⟨k, rfl, hold k hwatch ?_⟩
      rintro rfl
      exact hint hwatch.2.1

theorem epoll_kept {a : Epoll.Action cfg} (h : Kept s)
    (hdisjoint : WindowsDisjoint s.epoll a) (hdrops : a = .app → dropsOut s.epoll = false)
    (hstep : Epoll.step s.epoll a = some e) : Kept { s with epoll := e } := by
  refine step_eventsKept h hdisjoint ?_ ?_ hstep
  · rintro i ⟨k, rfl, hwatch⟩
    exact hwatch.2.1
  · rintro ha loop info hwait ⟨k, rfl, hwatch⟩
    have hnot := hdrops ha
    exact ⟨hwatch.2.2, by simpa [dropsOut, hwait] using hnot⟩

theorem step_kept {a : Action cfg} (h : Kept s)
    (hguard : Watched s a) (hstep : step s a = some t) : Kept t := by
  cases a with
  | epoll a =>
    by_cases hset : ∃ sock positive, a = .setTxSpace sock positive
    · obtain ⟨sock, positive, rfl⟩ := hset
      cases hstep
    · have hdisjoint : WindowsDisjoint s.epoll a := by
        cases a <;> first | exact hguard | exact hguard.1
      have hdrops : a = .app → dropsOut s.epoll = false := by
        rintro rfl
        exact hguard.2
      have hstep' : (if (looksUp a).all s.registered then
          (Epoll.step s.epoll a).map fun e => { s with epoll := e } else none) = some t := by
        cases a <;> first | exact hstep | exact (hset ⟨_, _, rfl⟩).elim
      obtain ⟨-, hmap⟩ := Option.ite_none_right_eq_some.mp hstep'
      obtain ⟨e, he, rfl⟩ := Option.map_eq_some_iff.mp hmap
      exact epoll_kept h hdisjoint hdrops he
  | ctl sock stored =>
    obtain ⟨⟨hwait, -⟩, rfl⟩ := of_guard hstep
    exact lightEpollCtl_kept h hguard hwait
  | setEarly sock length =>
    obtain ⟨-, ⟨⟩⟩ := Option.ite_none_left_eq_some.mp hstep
    exact h
  | send | setTxSpace | setRoom | transmitted =>
    cases hstep
    exact h

theorem kept_of_reachable (hreach : (system cfg).ReachableUnder Watched s) : Kept s := by
  refine hreach.invariant ?_ ?_
  · intro s hs
    unfold Kept
    rw [hs.epoll_eq]
    refine EventsKept.start ?_
    rintro i ⟨k, rfl, hwatch⟩
    simp [WatchesOut, hs.registered_eq] at hwatch
  · intro s a t h hguard hstep
    exact step_kept h hguard hstep

end

/-- In a run that keeps to `Watched`, a socket that becomes writable has its `EPOLLOUT` queued. -/
theorem epollout_queued_when_writable {s t : State cfg} {sock : Sock} {dataLen : Nat}
    (hreach : (system cfg).ReachableUnder Watched s)
    (hguard : Watched s (.transmitted sock dataLen))
    (hstep : step s (.transmitted sock dataLen) = some t) (hwatch : WatchesOut s sock) :
    BecomesWritable s t sock →
      Queued t.epoll ⟨sock, .epollout⟩ ∧ t.epoll.bit ⟨sock, .epollout⟩ = true := by
  intro _
  cases hstep
  obtain ⟨hwindow, howed, hpending⟩ := hguard
  have hkept := kept_of_reachable hreach
  cases hkept.covered _ ⟨sock, rfl, hwatch⟩ with
  | posting p h => exact absurd h (hpending p)
  | owed _ h => exact absurd h howed
  | marked hbit _ => exact ⟨(hkept.bitQueued _ hbit).resolve_right hwindow, hbit⟩
  | valid loop h => exact absurd (by rw [h]; rfl) hwindow

def outSocket : Config where
  numProcs := 1
  node := fun sock => if sock = 0 then some ⟨fun e => e = .epollout, false⟩ else none

def onePacket : State outSocket :=
  let s : State outSocket :=
    { epoll := Epoll.start outSocket
      registered := fun _ => false
      early := fun _ => 0
      txSpace := fun _ => 1448
      room := fun _ => true }
  { s with epoll := { s.epoll with txSpace := checkBuffer s } }

instance (s t : State cfg) (sock : Sock) : Decidable (BecomesWritable s t sock) :=
  inferInstanceAs (Decidable (_ ∧ _))

instance (s : State cfg) (sock : Sock) : Decidable (WatchesOut s sock) :=
  inferInstanceAs (Decidable (_ ∧ _ ∧ _))

theorem epollout_queued_when_writable_unpolled :
    ∃ s t : State outSocket, (system outSocket).ReachableUnder Watched s ∧
      step s (.transmitted 0 1448) = some t ∧ WatchesOut s 0 ∧ BecomesWritable s t 0 ∧
        Queued t.epoll ⟨0, .epollout⟩ ∧ t.epoll.bit ⟨0, .epollout⟩ = true := by
  obtain ⟨s, hreach, hwatch, hguard, hwritable⟩ :=
    (system outSocket).exists_reachableUnder Watched onePacket
      [.ctl 0 true, .send 0 1448]
      (P := fun s => WatchesOut s 0 ∧ Watched s (.transmitted 0 1448) ∧
        BecomesWritable s (userTransmittedCallback s 0 1448) 0)
      ⟨rfl, fun _ => rfl⟩ (by decide)
  exact ⟨s, _, hreach, rfl, hwatch, hwritable,
    epollout_queued_when_writable hreach hguard rfl hwatch hwritable⟩

def polledWhileFull : List (Action outSocket) :=
  [Action.ctl 0 true, .send 0 1448, .epoll (.call (-1) 8)] ++
    List.replicate 11 (Action.epoll .app) ++ [Action.epoll (.finish 0)]

theorem epollout_dropped_while_full : ∃ s t : State outSocket, (system outSocket).Reachable s ∧
      step s (.transmitted 0 1448) = some t ∧ WatchesOut s 0 ∧ BecomesWritable s t 0 ∧
        s.epoll.wait = .testReady ∧ s.epoll.post ⟨0, Nat.one_pos⟩ = .idle ∧
          ¬ Queued t.epoll ⟨0, .epollout⟩ ∧ t.epoll.bit ⟨0, .epollout⟩ = false := by
  obtain ⟨s, hreach, htest⟩ :=
    (system outSocket).exists_reachable onePacket polledWhileFull
      (P := fun s => WatchesOut s 0 ∧
        BecomesWritable s (userTransmittedCallback s 0 1448) 0 ∧
        s.epoll.wait = .testReady ∧ s.epoll.post ⟨0, Nat.one_pos⟩ = .idle ∧
        ¬ Queued (userTransmittedCallback s 0 1448).epoll ⟨0, .epollout⟩ ∧
        (userTransmittedCallback s 0 1448).epoll.bit ⟨0, .epollout⟩ = false)
      ⟨rfl, fun _ => rfl⟩ (by decide)
  exact ⟨s, _, hreach, rfl, htest⟩

end LightStack.Epoll.Writable
