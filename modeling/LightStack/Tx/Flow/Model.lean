import LightStack.Tx.Send.Model

/-!
# The sending side of one TCP connection

Each access to shared data is a step. The `truesize` of an sk_buff, and whether it can be made, is
an input.
-/

namespace LightStack.Tx.Flow

open Lib
open Tx.Send (payloadMax)

structure Config where
  minSndbuf : Nat
  wmemMax : Nat
  tcpWmemMax : Nat
  minSndbuf_pos : 0 < minSndbuf
  minSndbuf_lt : minSndbuf < 2 ^ 31
  wmemMax_lt : 2 * wmemMax < 2 ^ 31
  tcpWmemMax_pos : 0 < tcpWmemMax

def Config.sndbufFor (cfg : Config) (val : Nat) : Int :=
  toInt32 (max (2 * val % 2 ^ 32) cfg.minSndbuf : Nat)

/-! ## The write queue -/

structure Skb where
  len : Nat
  frags : List Nat
  truesize : Nat
  len_le : len ≤ truesize

def Skb.ofBuffer (overhead dataLen : Nat) : Skb where
  len := dataLen
  frags := [dataLen]
  truesize := overhead + dataLen
  len_le := Nat.le_add_left dataLen overhead

def Skb.syn (truesize : Nat) : Skb := ⟨0, [], truesize, Nat.zero_le truesize⟩

def Skb.front (skb : Skb) (n : Nat) : Skb where
  len := min n skb.len
  frags := skb.frags
  truesize := skb.truesize - (skb.len - n)
  len_le := by have := skb.len_le; omega

def Skb.back (skb : Skb) (n overhead : Nat) : Skb where
  len := skb.len - n
  frags := skb.frags
  truesize := overhead + (skb.len - n)
  len_le := Nat.le_add_left _ overhead

def Skb.trim (skb : Skb) (n : Nat) : Skb where
  len := skb.len - n
  frags := skb.frags
  truesize := skb.truesize - min n skb.len
  len_le := by have := skb.len_le; omega

def charge (queue : List Skb) : Nat := (queue.map Skb.truesize).sum

def payload (queue : List Skb) : Nat := (queue.map Skb.len).sum

@[simp] theorem charge_nil : charge [] = 0 := rfl

@[simp] theorem charge_cons (skb : Skb) (queue : List Skb) :
    charge (skb :: queue) = skb.truesize + charge queue := by
  simp [charge]

@[simp] theorem charge_append (queue queue' : List Skb) :
    charge (queue ++ queue') = charge queue + charge queue' := by
  simp [charge]

@[simp] theorem payload_nil : payload [] = 0 := rfl

@[simp] theorem payload_cons (skb : Skb) (queue : List Skb) :
    payload (skb :: queue) = skb.len + payload queue := by
  simp [payload]

@[simp] theorem payload_append (queue queue' : List Skb) :
    payload (queue ++ queue') = payload queue + payload queue' := by
  simp [payload]

def splitAt (n overhead : Nat) : Nat → List Skb → Option (List Skb)
  | _, [] => none
  | 0, skb :: rest =>
    if 0 < n ∧ n < skb.len then some (skb.front n :: skb.back n overhead :: rest) else none
  | i + 1, skb :: rest => (splitAt n overhead i rest).map (skb :: ·)

theorem charge_splitAt {n overhead i : Nat} {queue split : List Skb}
    (h : splitAt n overhead i queue = some split) : charge split = charge queue + overhead := by
  induction queue generalizing i split with
  | nil => simp [splitAt] at h
  | cons skb rest ih =>
    cases i with
    | zero =>
      obtain ⟨hn, rfl⟩ := of_guard h
      have hlen := skb.len_le
      simp only [charge_cons, Skb.front, Skb.back]
      omega
    | succ i =>
      obtain ⟨split, hsplit, rfl⟩ := Option.map_eq_some_iff.mp h
      simp only [charge_cons, ih hsplit]
      omega

theorem splitAt_ne_nil {n overhead i : Nat} {queue split : List Skb}
    (h : splitAt n overhead i queue = some split) : split ≠ [] := by
  rintro rfl
  cases queue with
  | nil => simp [splitAt] at h
  | cons skb rest =>
    cases i with
    | zero | succ => simp [splitAt] at h

inductive TcpState where
  | closed
  | synSent
  | established
  | closeWait
  | other
  deriving DecidableEq

/-- `sent` counts the sk_buffs before `tcp_send_head`, `clones` those on their way to the network.
`charged` is the invariant of `sk_wmem_queued`. -/
structure Sock where
  tcp : TcpState
  sndbuf : Int
  locked : Bool
  wmemQueued : Int
  queue : List Skb
  sent : Nat
  clones : Nat
  noSpace : Bool
  listed : Bool
  charged : wmemQueued = charge queue

namespace Sock

variable (k : Sock)

def connected : Bool := k.tcp = .established || k.tcp = .closeWait

def wspace : Int := k.sndbuf - k.wmemQueued

def isWriteable : Bool := k.wmemQueued / 2 ≤ k.wspace && k.wmemQueued < k.sndbuf

def writeSpace : Sock :=
  if k.tcp = .established ∧ k.isWriteable then { k with noSpace := false, listed := true } else k

def checkSpace : Sock := if k.noSpace then k.writeSpace else k

def entail (skb : Skb) : Sock :=
  { k with
    wmemQueued := k.wmemQueued + skb.truesize
    queue := k.queue ++ [skb]
    charged := by simp [k.charged] }

def unlink {skb : Skb} {rest : List Skb} (h : k.queue = skb :: rest) : Sock :=
  { k with
    wmemQueued := k.wmemQueued - skb.truesize
    queue := rest
    sent := k.sent - 1
    charged := by simp [k.charged, h] }

def split (n overhead i : Nat) : Option Sock :=
  match h : splitAt n overhead i k.queue with
  | none => none
  | some queue =>
    some { k with
      wmemQueued := k.wmemQueued + overhead
      queue := queue
      sent := if i < k.sent then k.sent + 1 else k.sent
      charged := by simp [k.charged, charge_splitAt h] }

def trim (n : Nat) : Option Sock :=
  match h : k.queue with
  | [] => none
  | skb :: rest =>
    if hn : 0 < k.sent ∧ n < skb.len then
      some { k with
        wmemQueued := k.wmemQueued - n
        queue := skb.trim n :: rest
        charged := by
          have := skb.len_le
          simp only [k.charged, h, charge_cons, Skb.trim]
          omega }
    else none

inductive Opt where
  | sndbuf (val : Nat)
  | sndbufForce (val : Nat)
  | other
  deriving DecidableEq

def setSndbuf (sndbuf : Int) : Sock := writeSpace { k with locked := true, sndbuf := sndbuf }

def setsockopt (cfg : Config) : Opt → Sock
  | .sndbuf val => k.setSndbuf (cfg.sndbufFor (min (val % 2 ^ 32) cfg.wmemMax))
  | .sndbufForce val => k.setSndbuf (cfg.sndbufFor val)
  | .other => k

def expand (cfg : Config) (sndmem : Nat) : Sock :=
  if k.locked = false ∧ k.sndbuf < sndmem then
    { k with sndbuf := (min sndmem cfg.tcpWmemMax : Nat) }
  else k

def moderate (cfg : Config) : Sock :=
  if k.locked then k
  else { k with sndbuf := max (min k.sndbuf (k.wmemQueued / 2)) cfg.minSndbuf }

/-! What these do to the fields that the invariants look at. -/

variable {k}

@[simp] theorem writeSpace_tcp : k.writeSpace.tcp = k.tcp := by
  unfold writeSpace
  split <;> rfl

@[simp] theorem writeSpace_sndbuf : k.writeSpace.sndbuf = k.sndbuf := by
  unfold writeSpace
  split <;> rfl

@[simp] theorem writeSpace_queue : k.writeSpace.queue = k.queue := by
  unfold writeSpace
  split <;> rfl

@[simp] theorem checkSpace_tcp : k.checkSpace.tcp = k.tcp := by
  unfold checkSpace
  split <;> simp

@[simp] theorem checkSpace_sndbuf : k.checkSpace.sndbuf = k.sndbuf := by
  unfold checkSpace
  split <;> simp

@[simp] theorem checkSpace_queue : k.checkSpace.queue = k.queue := by
  unfold checkSpace
  split <;> simp

@[simp] theorem setsockopt_tcp {cfg : Config} {opt : Opt} : (k.setsockopt cfg opt).tcp = k.tcp := by
  cases opt <;> simp [setsockopt, setSndbuf]

@[simp] theorem setsockopt_queue {cfg : Config} {opt : Opt} :
    (k.setsockopt cfg opt).queue = k.queue := by
  cases opt <;> simp [setsockopt, setSndbuf]

theorem sndbufFor_pos (cfg : Config) {val : Nat} (hval : 2 * val < 2 ^ 31) :
    0 < cfg.sndbufFor val := by
  have hpos := cfg.minSndbuf_pos
  have hlt := cfg.minSndbuf_lt
  unfold Config.sndbufFor
  rw [toInt32_of_lt (by omega) (by omega)]
  omega

theorem setsockopt_sndbuf_pos (cfg : Config) (hsndbuf : 0 < k.sndbuf) {opt : Opt}
    (hforce : ∀ val, opt = .sndbufForce val → val < 2 ^ 30) :
    0 < (k.setsockopt cfg opt).sndbuf := by
  cases opt with
  | sndbuf val =>
    have hmax := cfg.wmemMax_lt
    simp only [setsockopt, setSndbuf, writeSpace_sndbuf]
    exact sndbufFor_pos cfg (by omega)
  | sndbufForce val =>
    have hval := hforce val rfl
    simp only [setsockopt, setSndbuf, writeSpace_sndbuf]
    exact sndbufFor_pos cfg (by omega)
  | other => exact hsndbuf

theorem expand_sndbuf_pos (cfg : Config) (hsndbuf : 0 < k.sndbuf) (sndmem : Nat) :
    0 < (k.expand cfg sndmem).sndbuf := by
  unfold expand
  split
  · have hpos := cfg.tcpWmemMax_pos
    change (0 : Int) < (min sndmem cfg.tcpWmemMax : Nat)
    omega
  · exact hsndbuf

theorem moderate_sndbuf_pos (cfg : Config) (hsndbuf : 0 < k.sndbuf) :
    0 < (k.moderate cfg).sndbuf := by
  unfold moderate
  split
  · exact hsndbuf
  · have hpos := cfg.minSndbuf_pos
    change (0 : Int) < max (min k.sndbuf (k.wmemQueued / 2)) cfg.minSndbuf
    omega

end Sock

inductive Sender where
  | subtract (bytes : Nat)
  | testAndSet
  | issue
  deriving DecidableEq

inductive Caller where
  | command
  | txReady
  deriving DecidableEq

inductive StackPc where
  | idle
  | clearFlag (caller : Caller)
  | countRing (caller : Caller)
  | test (caller : Caller)
  | clearAgain (caller : Caller)
  | dequeue (caller : Caller)
  deriving DecidableEq

structure State where
  attached : Bool
  txSpace : Int
  txRing : List Nat
  senders : List Sender
  writeDone : Bool
  kicks : Nat
  sock : Sock
  stack : StackPc

def Sender.owes : Sender → Nat
  | .subtract bytes => bytes
  | _ => 0

def unsubtracted (s : State) : Nat := (s.senders.map Sender.owes).sum

inductive Action where
  | send (bufs : List Nat)
  | subtract (bytes : Nat)
  | testAndSet
  | issue (posted retry : Bool)
  | setSocketRing
  | setsockopt (opt : Sock.Opt)
  | takeKick
  | takeReady
  | proceed (overhead : Option Nat)
  | connect (truesize : Nat)
  | establish
  | fin
  | reset
  | transmit
  | emit
  | freeClone
  | ack (n : Nat)
  | trim (n : Nat)
  | split (n overhead i : Nat)
  | expand (sndmem : Nat)
  | moderate

def testAndSet (s : State) : State :=
  if s.writeDone then { s with senders := s.senders.erase .testAndSet }
  else { s with
    writeDone := true
    senders := .issue :: s.senders.erase .testAndSet }

def issue (s : State) (posted retry : Bool) : State :=
  let rest := s.senders.erase .issue
  if posted then { s with kicks := s.kicks + 1, senders := rest }
  else if retry then { s with senders := .testAndSet :: rest }
  else { s with senders := rest }

/-! ## The stack -/

def leave (s : State) : Caller → State
  | .command => { s with stack := .idle }
  | .txReady => { s with stack := .idle, sock := { s.sock with noSpace := true } }

def sendpage (s : State) (caller : Caller) (overhead : Option Nat) : State :=
  match s.txRing, overhead with
  | [], _ => leave s caller
  | _ :: rest, none => leave { s with txRing := rest } caller
  | dataLen :: rest, some overhead =>
    { s with
      txRing := rest
      sock := s.sock.entail (.ofBuffer overhead dataLen)
      stack := .test caller }

def proceed (s : State) (overhead : Option Nat) : Option State :=
  match s.stack with
  | .idle => none
  | .clearFlag c => some { s with writeDone := false, stack := .countRing c }
  | .countRing c => some (if s.txRing = [] then leave s c else { s with stack := .test c })
  | .test c =>
    some (if s.sock.wspace ≤ 0 ∨ s.sock.connected = false then leave s c
      else { s with stack := .clearAgain c })
  | .clearAgain c => some { s with writeDone := false, stack := .dequeue c }
  | .dequeue c => some (sendpage s c overhead)

def takeReady (s : State) : State :=
  let s := { s with sock := { s.sock with listed := false } }
  if s.attached then { s with stack := .clearFlag .txReady } else leave s .txReady

def setTxSpace (s : State) : State := { s with txSpace := s.sock.wspace }

def creditSkb (s : State) (skb : Skb) : State :=
  { s with txSpace := s.txSpace + skb.frags.sum }

def tcpCleanRtxQueue : Nat → State → State
  | 0, s => s
  | n + 1, s =>
    match h : s.sock.queue with
    | [] => s
    | skb :: _ =>
      if s.sock.sent = 0 then s
      else tcpCleanRtxQueue n (creditSkb { s with sock := s.sock.unlink h } skb)

structure Sock.Freed (n : Nat) (k k' : Sock) : Prop where
  tcp : k'.tcp = k.tcp
  sndbuf : k'.sndbuf = k.sndbuf
  listed : k'.listed = k.listed
  noSpace : k'.noSpace = k.noSpace
  length : k.queue.length ≤ k'.queue.length + n

theorem tcpCleanRtxQueue_freed (n : Nat) (s : State) :
    ∃ k x, tcpCleanRtxQueue n s = { s with sock := k, txSpace := x } ∧ Sock.Freed n s.sock k := by
  induction n generalizing s with
  | zero => exact ⟨s.sock, s.txSpace, rfl, rfl, rfl, rfl, rfl, Nat.le_refl _⟩
  | succ n ih =>
    have hsame : ∃ k x, s = { s with sock := k, txSpace := x } ∧ Sock.Freed (n + 1) s.sock k :=
      ⟨s.sock, s.txSpace, rfl, rfl, rfl, rfl, rfl, Nat.le_add_right _ _⟩
    unfold tcpCleanRtxQueue
    split
    · exact hsame
    · next skb rest hqueue =>
      split
      · exact hsame
      · obtain ⟨k, x, heq, hfreed⟩ := ih (creditSkb { s with sock := s.sock.unlink hqueue } skb)
        refine ⟨k, x, heq, hfreed.tcp, hfreed.sndbuf, hfreed.listed, hfreed.noSpace, ?_⟩
        have hlength : rest.length ≤ k.queue.length + n := hfreed.length
        rw [hqueue, List.length_cons]
        omega

def onSock (s : State) (f : Sock → Sock) : State := { s with sock := f s.sock }

def ack (s : State) (n : Nat) : State := onSock (tcpCleanRtxQueue n s) Sock.checkSpace

def tcpStep (cfg : Config) (s : State) : Action → Option State
  | .connect truesize =>
    if s.sock.tcp = .closed then
      some (onSock s fun k =>
        { k.entail (.syn truesize) with tcp := .synSent, sent := 1, clones := k.clones + 1 })
    else none
  | .establish =>
    if s.sock.tcp = .synSent then
      some (onSock (tcpCleanRtxQueue 1 s) fun k => { k with tcp := .established })
    else none
  | .fin =>
    if s.sock.tcp = .established then some (onSock s fun k => { k with tcp := .closeWait })
    else none
  | .reset => some (onSock s fun k => { k with tcp := .other })
  | .transmit =>
    if s.sock.sent < s.sock.queue.length then
      some (onSock s fun k => { k with sent := k.sent + 1, clones := k.clones + 1 })
    else none
  | .emit => some (onSock s fun k => { k with clones := k.clones + 1 })
  | .freeClone =>
    if 0 < s.sock.clones then
      some (onSock s fun k => Sock.writeSpace { k with clones := k.clones - 1 })
    else none
  | .ack n => if s.stack = .idle then some (ack s n) else none
  | .trim n =>
    if s.stack = .idle then
      (s.sock.trim n).map fun k => { s with sock := k.checkSpace }
    else none
  | .split n overhead i => (s.sock.split n overhead i).map fun k => { s with sock := k }
  | .expand sndmem => some (onSock s fun k => k.expand cfg sndmem)
  | .moderate => some (onSock s fun k => k.moderate cfg)
  | _ => none

def step (cfg : Config) (s : State) : Action → Option State
  | .send bufs =>
    if ∀ b ∈ bufs, 0 < b ∧ b ≤ payloadMax then
      some { s with
        txRing := s.txRing ++ bufs
        senders := .subtract bufs.sum :: s.senders }
    else none
  | .subtract bytes =>
    if .subtract bytes ∈ s.senders then
      some { s with
        txSpace := s.txSpace - bytes
        senders := .testAndSet :: s.senders.erase (.subtract bytes) }
    else none
  | .testAndSet => if .testAndSet ∈ s.senders then some (testAndSet s) else none
  | .issue posted retry => if .issue ∈ s.senders then some (issue s posted retry) else none
  | .setSocketRing =>
    if s.stack = .idle ∧ s.attached = false then
      some (setTxSpace { s with attached := true })
    else none
  | .setsockopt opt =>
    if s.stack = .idle ∧ s.attached = true then
      some (setTxSpace (onSock s fun k => k.setsockopt cfg opt))
    else none
  | .takeKick =>
    -- the command ring is in order: a kick comes after `SET_SOCKET_RING`
    if s.stack = .idle ∧ s.attached = true ∧ 0 < s.kicks then
      some { s with kicks := s.kicks - 1, stack := .clearFlag .command }
    else none
  | .takeReady => if s.stack = .idle ∧ s.sock.listed = true then some (takeReady s) else none
  | .proceed overhead => proceed s overhead
  | a => tcpStep cfg s a

structure Start (s : State) : Prop where
  txRing : s.txRing = []
  senders : s.senders = []
  writeDone : s.writeDone = false
  kicks : s.kicks = 0
  stack : s.stack = .idle
  sndbuf : 0 < s.sock.sndbuf
  queue : s.sock.queue = []
  noSpace : s.sock.noSpace = false
  listed : s.sock.listed = false
  opened : s.attached = true → s.sock.tcp = .closed ∧ s.txSpace = s.sock.sndbuf
  accepted : s.attached = false → s.sock.tcp = .established

def system (cfg : Config) : TransitionSystem State Action where
  init := Start
  step := step cfg

def defaultConfig : Config where
  minSndbuf := 2 * (2048 + 256)
  wmemMax := 212992
  tcpWmemMax := 4194304
  minSndbuf_pos := by decide
  minSndbuf_lt := by decide
  wmemMax_lt := by decide
  tcpWmemMax_pos := by decide

def accepted (sndbuf : Int) : State where
  attached := false
  txSpace := 0
  txRing := []
  senders := []
  writeDone := false
  kicks := 0
  sock :=
    { tcp := .established, sndbuf := sndbuf, locked := false, wmemQueued := 0, queue := [],
      sent := 0, clones := 0, noSpace := false, listed := false, charged := rfl }
  stack := .idle

theorem start_accepted {sndbuf : Int} (h : 0 < sndbuf) : Start (accepted sndbuf) where
  txRing := rfl
  senders := rfl
  writeDone := rfl
  kicks := rfl
  stack := rfl
  sndbuf := h
  queue := rfl
  noSpace := rfl
  listed := rfl
  opened := by simp [accepted]
  accepted := fun _ => rfl

def lightSend (bufs : List Nat) : List Action :=
  [.send bufs, .subtract bufs.sum, .testAndSet, .issue true false]

def opportunity (n overhead : Nat) : List Action :=
  [Action.proceed none, .proceed none] ++
    (List.replicate n [Action.proceed none, .proceed none, .proceed (some overhead)]).flatten ++
      [Action.proceed none]

end LightStack.Tx.Flow
