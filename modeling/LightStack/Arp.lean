import LightStack.Lib.Transition
import Mathlib.Data.List.Basic
import Mathlib.Logic.Function.Basic

/-!
# ARP tables of the stack processes

Every stack process sends what it has learnt to the others. Routing is left open.
-/

namespace LightStack.Arp

open Lib Function List

/-! ## Neighbours -/

inductive Nud where
  | none
  | incomplete
  | reachable
  | stale
  | delay
  | probe
  | failed
  | noarp
  | permanent
deriving DecidableEq

def Nud.valid : Nud → Bool
  | .permanent | .noarp | .reachable | .probe | .stale | .delay => true
  | .none | .incomplete | .failed => false

def Nud.connected : Nud → Bool
  | .permanent | .noarp | .reachable => true
  | _ => false

structure Neighbour where
  nudState : Nud
  ha : Nat
  updated : Nat
deriving DecidableEq

structure Key where
  port : Nat
  ip : Nat
deriving DecidableEq

def neighUpdate (now : Nat) (n : Neighbour) (lladdr : Nat) (new : Nud) (override : Bool) :
    Neighbour :=
  if n.nudState = .noarp ∨ n.nudState = .permanent then n
  else if new.valid = false then { n with nudState := new }
  else if n.nudState.valid = true then
    if lladdr ≠ n.ha ∧ override = false then { n with updated := now }
    else if lladdr = n.ha ∧ new = .stale ∧ n.nudState.connected = true then
      { n with updated := now }
    else ⟨new, lladdr, now⟩
  else ⟨new, lladdr, now⟩

/-! ## Packets and commands -/

inductive PktType where
  | host
  | broadcast
  | multicast
  | otherhost
  | loopback
deriving DecidableEq

structure Packet where
  port : Nat
  pktType : PktType
  arHrd : Nat
  arPro : Nat
  arOp : Nat
  sha : Nat
  sip : Nat
  tip : Nat
deriving DecidableEq

def Packet.key (p : Packet) : Key := ⟨p.port, p.sip⟩

def arpopRequest : Nat := 1

def arpopReply : Nat := 2

def ipv4IsMulticast (ip : Nat) : Bool := decide (ip / 268435456 % 16 = 14)

def ipv4IsLoopback (ip : Nat) : Bool := decide (ip / 16777216 % 256 = 127)

structure AddArp where
  portNumber : Nat
  sip : Nat
  sha : Nat
  creat : Bool
  state : Nud
  override : Bool
  serial : Nat
  asserted : state = .reachable ∨ state = .stale
deriving DecidableEq

def AddArp.key (cmd : AddArp) : Key := ⟨cmd.portNumber, cmd.sip⟩

structure State where
  numProcs : Nat
  arpAccept : Bool
  routeLocalnet : Bool
  locktime : Nat
  table : Nat → Key → Option Neighbour
  ring : Nat → List AddArp
  clock : Nat

inductive Route where
  | failed
  | rtnLocal (dontSend : Bool)
  | proxied
  | other
deriving DecidableEq

structure Env where
  now : Nat
  inDev : Bool
  route : Route
  unicast : Bool
  created : Bool
  sendable : Nat → Bool

def neighLookup (s : State) (c : Nat) (key : Key) (creat created : Bool) (now : Nat) :
    Option Neighbour :=
  match s.table c key with
  | some n => some n
  | none => if creat = true ∧ created = true then some ⟨.none, 0, now⟩ else none

def setEntry (s : State) (c : Nat) (key : Key) (n : Neighbour) : State :=
  { s with
    table := update s.table c (update (s.table c) key (some n)) }

def neighEventNs (s : State) (c : Nat) (p : Packet) (env : Env) : State :=
  match neighLookup s c p.key true env.created env.now with
  | some n => setEntry s c p.key (neighUpdate env.now n p.sha .stale true)
  | none => s

def notify (env : Env) (c : Nat) (cmd : AddArp) (s : State) (i : Nat) : State :=
  if i ≠ c ∧ env.sendable i = true then
    { s with ring := update s.ring i (s.ring i ++ [cmd]) }
  else s

def assertedState (p : Packet) : Nud :=
  if p.arOp ≠ arpopReply ∨ p.pktType ≠ .host then .stale else .reachable

theorem assertedState_cases (p : Packet) :
    assertedState p = .reachable ∨ assertedState p = .stale := by
  unfold assertedState
  split
  · exact Or.inr rfl
  · exact Or.inl rfl

def isGarp (s : State) (p : Packet) (env : Env) : Bool :=
  s.arpAccept && decide (p.arOp = arpopRequest ∧ p.tip = p.sip) && env.unicast

def creat (s : State) (c : Nat) (p : Packet) (env : Env) : Bool :=
  s.arpAccept && (s.table c p.key).isNone &&
    (decide (p.arOp = arpopReply) && env.unicast || isGarp s p env)

def updateTables (s : State) (c : Nat) (p : Packet) (env : Env) : State :=
  match neighLookup s c p.key (creat s c p env) env.created env.now with
  | none => s
  | some n =>
    let override := decide (n.updated + s.locktime < env.now) || isGarp s p env
    (List.range s.numProcs).foldl
      (notify env c ⟨p.port, p.sip, p.sha, creat s c p env, assertedState p, override,
        s.clock, assertedState_cases p⟩)
      (setEntry s c p.key (neighUpdate env.now n p.sha (assertedState p) override))

def arpProcess (s : State) (c : Nat) (p : Packet) (env : Env) : State :=
  if env.inDev = false then s
  else if p.arHrd ≠ 1 ∧ p.arHrd ≠ 6 ∨ p.arPro ≠ 2048 then s
  else if p.arOp ≠ arpopReply ∧ p.arOp ≠ arpopRequest then s
  else if ipv4IsMulticast p.tip = true ∨
      s.routeLocalnet = false ∧ ipv4IsLoopback p.tip = true then s
  else if p.sip = 0 then s
  else if p.arOp = arpopRequest then
    match env.route with
    | .rtnLocal dontSend => if dontSend then s else neighEventNs s c p env
    | .proxied => neighEventNs s c p env
    | .failed | .other => updateTables s c p env
  else updateTables s c p env

def arpRcv (s : State) (c : Nat) (p : Packet) (env : Env) : State :=
  if p.pktType = .otherhost ∨ p.pktType = .loopback then s
  else { arpProcess s c p env with clock := s.clock + 1 }

def processArpCommand (s : State) (c : Nat) (cmd : AddArp) (now : Nat) (created : Bool) : State :=
  match neighLookup s c cmd.key cmd.creat created now with
  | some n => setEntry s c cmd.key (neighUpdate now n cmd.sha cmd.state cmd.override)
  | none => s

def setRing (s : State) (c : Nat) (cmds : List AddArp) : State :=
  { s with ring := update s.ring c cmds }

def processCommand (s : State) (c now : Nat) (created : Bool) : Option State :=
  match s.ring c with
  | [] => none
  | cmd :: rest => some (processArpCommand (setRing s c rest) c cmd now created)

inductive Action where
  | receive (c : Nat) (p : Packet) (env : Env)
  | process (c now : Nat) (created : Bool)
  | change (c : Nat) (key : Key) (entry : Option Neighbour)

def step (s : State) : Action → Option State
  | .receive c p env => if c < s.numProcs then some (arpRcv s c p env) else none
  | .process c now created => processCommand s c now created
  | .change c key entry =>
    some { s with
      table := update s.table c (update (s.table c) key entry) }

def systemFrom (s : State) : TransitionSystem State Action where
  init := (· = s)
  step := step

def Waits (s : State) (c : Nat) (key : Key) : Prop :=
  ∃ n, s.table c key = some n ∧ n.nudState.valid = false

def ReachableAt (s : State) (c : Nat) (key : Key) (sha : Nat) : Prop :=
  ∃ n, s.table c key = some n ∧ n.nudState = .reachable ∧ n.ha = sha

structure UnicastReply (s : State) (p : Packet) (env : Env) : Prop where
  inDev : env.inDev = true
  arHrd : p.arHrd = 1 ∨ p.arHrd = 6
  arPro : p.arPro = 2048
  arOp : p.arOp = arpopReply
  pktType : p.pktType = .host
  tip : ipv4IsMulticast p.tip = false ∧ (s.routeLocalnet = false → ipv4IsLoopback p.tip = false)
  sip : p.sip ≠ 0

def Agrees (key : Key) (sha : Nat) (_ : State) : Action → Prop
  | .receive _ p _ => p.key = key → p.sha = sha
  | .process _ _ _ => True
  | .change _ key' _ => key' ≠ key

def Learns (sha : Nat) (n : Neighbour) : Prop :=
  n.nudState.valid = false ∨
    n.nudState ≠ .noarp ∧ n.nudState ≠ .permanent ∧ n.ha = sha

variable {n : Neighbour} {created : Bool} {now : Nat}

theorem Learns.neighUpdate {sha : Nat} (h : Learns sha n) {new : Nud}
    (hnew : new = .reachable ∨ new = .stale) (now : Nat) (override : Bool) :
    Learns sha (neighUpdate now n sha new override) ∧
      (new = .reachable ∨ n.nudState = .reachable →
        (neighUpdate now n sha new override).nudState = .reachable ∧
          (neighUpdate now n sha new override).ha = sha) := by
  obtain ⟨old, ha, updated⟩ := n
  rcases hnew with rfl | rfl <;> rcases h with h | ⟨hnoarp, hpermanent, rfl⟩ <;>
    cases old <;> simp_all [Arp.neighUpdate, Learns, Nud.valid, Nud.connected]

inductive Taught (sha : Nat) : Option Neighbour → Option Neighbour → Prop where
  | same (entry : Option Neighbour) : Taught sha entry entry
  | created (entry : Option Neighbour) : Taught sha none entry
  | updated (n : Neighbour) {new : Nud} (hnew : new = .reachable ∨ new = .stale) (now : Nat)
      (override : Bool) : Taught sha (some n) (some (neighUpdate now n sha new override))

theorem Taught.learns {sha : Nat} {entry : Option Neighbour} (h : Taught sha (some n) entry)
    (hlearns : Learns sha n) :
    ∃ n', entry = some n' ∧ Learns sha n' ∧
      (n.nudState = .reachable ∧ n.ha = sha → n'.nudState = .reachable ∧ n'.ha = sha) := by
  cases h with
  | same => exact ⟨n, rfl, hlearns, id⟩
  | updated _ hnew now override =>
    obtain ⟨hkept, hreach⟩ := hlearns.neighUpdate hnew now override
    exact ⟨_, rfl, hkept, fun hn => hreach (Or.inr hn.1)⟩

section Entry

variable {s t : State} {c i k sha : Nat} {key : Key} {p : Packet} {env : Env}

theorem table_setEntry_of_ne (n : Neighbour) {key' : Key} (h : i ≠ c ∨ key ≠ key') :
    (setEntry s c key' n).table i key = s.table i key := by
  by_cases hi : i = c
  · subst hi
    have hkey : key ≠ key' := h.resolve_left (fun hne => hne rfl)
    simp [setEntry, hkey]
  · simp [setEntry, hi]

theorem table_setEntry_self (n : Neighbour) : (setEntry s c key n).table c key = some n := by
  simp [setEntry]

theorem taught_setEntry {key' : Key} {creat override : Bool} {lladdr : Nat}
    {new : Nud} (hlookup : neighLookup s c key' creat created now = some n)
    (hagrees : key' = key → lladdr = sha) (hnew : new = .reachable ∨ new = .stale) :
    Taught sha (s.table i key)
      ((setEntry s c key' (neighUpdate now n lladdr new override)).table i key) := by
  by_cases hhere : i = c ∧ key = key'
  · obtain ⟨rfl, rfl⟩ := hhere
    rw [table_setEntry_self, hagrees rfl]
    unfold neighLookup at hlookup
    cases hentry : s.table i key with
    | none => exact .created _
    | some m =>
      rw [hentry] at hlookup
      cases hlookup
      exact .updated _ hnew now override
  · rw [table_setEntry_of_ne _ (by rwa [not_and_or] at hhere)]
    exact .same _

theorem foldl_notify (env : Env) (c : Nat) (cmd : AddArp) (s : State) (n : Nat) :
    (List.range n).foldl (notify env c cmd) s =
      { s with
        ring := fun i =>
          if i < n ∧ i ≠ c ∧ env.sendable i = true then s.ring i ++ [cmd]
          else s.ring i } := by
  induction n with
  | zero => simp
  | succ n ih =>
    rw [range_succ, foldl_append, ih, foldl_cons, foldl_nil, notify]
    by_cases hsent : n ≠ c ∧ env.sendable n = true
    · rw [if_pos hsent]
      congr 1
      funext i
      by_cases hi : i = n
      · subst hi
        simp [hsent]
      · have hlt : i < n + 1 ↔ i < n := by omega
        simp [hi, hlt]
    · rw [if_neg hsent]
      congr 1
      funext i
      by_cases hi : i = n
      · subst hi
        simp [hsent]
      · have hlt : i < n + 1 ↔ i < n := by omega
        simp [hlt]

def Agreeing (key : Key) (sha : Nat) (cmds : List AddArp) : Prop :=
  ∀ cmd ∈ cmds, cmd.key = key → cmd.sha = sha

structure Follows (key : Key) (sha : Nat) (s t : State) : Prop where
  entry : ∀ i, Taught sha (s.table i key) (t.table i key)
  ring : ∀ i, ∃ added, t.ring i = s.ring i ++ added ∧ Agreeing key sha added

theorem Follows.refl (key : Key) (sha : Nat) (s : State) : Follows key sha s s :=
  ⟨fun _ => .same _, fun _ => ⟨[], (append_nil _).symm, by simp [Agreeing]⟩⟩

section

variable (hagrees : p.key = key → p.sha = sha)

include hagrees

theorem Follows.neighEventNs : Follows key sha s (neighEventNs s c p env) := by
  unfold Arp.neighEventNs
  split
  · rename_i n hlookup
    refine ⟨fun i => taught_setEntry hlookup hagrees (Or.inr rfl), ?_⟩
    intro i
    exact ⟨[], (append_nil _).symm, by simp [Agreeing]⟩
  · exact Follows.refl key sha s

theorem Follows.updateTables : Follows key sha s (updateTables s c p env) := by
  unfold Arp.updateTables
  split
  · exact Follows.refl key sha s
  · rename_i n hlookup
    dsimp only
    rw [foldl_notify]
    refine ⟨fun i => taught_setEntry hlookup hagrees (assertedState_cases p), ?_⟩
    intro i
    dsimp only
    split
    · refine ⟨_, rfl, ?_⟩
      intro cmd hcmd hkey
      rw [mem_singleton] at hcmd
      subst hcmd
      exact hagrees hkey
    · exact ⟨[], (append_nil _).symm, by simp [Agreeing]⟩

theorem Follows.arpProcess : Follows key sha s (arpProcess s c p env) := by
  have hrefl := Follows.refl key sha s
  have hupdate : Follows key sha s (Arp.updateTables s c p env) := .updateTables hagrees
  have hevent : Follows key sha s (Arp.neighEventNs s c p env) := .neighEventNs hagrees
  unfold Arp.arpProcess
  repeat' split
  all_goals assumption

theorem Follows.arpRcv : Follows key sha s (arpRcv s c p env) := by
  have h : Follows key sha s (Arp.arpProcess s c p env) := .arpProcess hagrees
  unfold Arp.arpRcv
  split
  · exact Follows.refl key sha s
  · exact ⟨h.entry, h.ring⟩

end

/-! ## A reply on its way -/

structure Due (key : Key) (sha k i : Nat) (s : State) : Prop where
  agreeing : Agreeing key sha (s.ring i)
  entry : ∃ n, s.table i key = some n ∧ Learns sha n ∧
    (n.nudState = .reachable ∧ n.ha = sha ∨
      ∃ cmd ∈ s.ring i, cmd.serial = k ∧ cmd.key = key ∧ cmd.state = .reachable)

theorem Due.of_follows (h : Due key sha k i s) (hfollows : Follows key sha s t) :
    Due key sha k i t := by
  obtain ⟨added, hring, hadded⟩ := hfollows.ring i
  constructor
  · intro cmd hcmd
    rw [hring] at hcmd
    exact (mem_append.mp hcmd).elim (h.agreeing cmd) (hadded cmd)
  · obtain ⟨n, hentry, hlearns, hstate⟩ := h.entry
    have htaught := hfollows.entry i
    rw [hentry] at htaught
    obtain ⟨n', hentry', hlearns', hreach⟩ := htaught.learns hlearns
    refine ⟨n', hentry', hlearns', hstate.imp hreach ?_⟩
    rintro ⟨cmd, hcmd, hfacts⟩
    exact ⟨cmd, hring ▸ mem_append_left _ hcmd, hfacts⟩

theorem processArpCommand_ring (s : State) (c : Nat) (cmd : AddArp) (now : Nat)
    (created : Bool) : (processArpCommand s c cmd now created).ring = s.ring := by
  unfold processArpCommand
  split <;> rfl

theorem processArpCommand_table_of_ne (cmd : AddArp) (now : Nat) (created : Bool) (hi : i ≠ c) :
    (processArpCommand s c cmd now created).table i key = s.table i key := by
  unfold processArpCommand
  split
  · exact table_setEntry_of_ne _ (.inl hi)
  · rfl

theorem processArpCommand_taught {cmd : AddArp} (hagrees : cmd.key = key → cmd.sha = sha) :
    Taught sha (s.table i key) ((processArpCommand s c cmd now created).table i key) := by
  unfold processArpCommand
  split
  · rename_i n hlookup
    exact taught_setEntry hlookup hagrees cmd.asserted
  · exact .same _

theorem processArpCommand_entry {cmd : AddArp} (hentry : s.table c cmd.key = some n) (now : Nat)
    (created : Bool) :
    (processArpCommand s c cmd now created).table c cmd.key =
      some (neighUpdate now n cmd.sha cmd.state cmd.override) := by
  have hlookup : neighLookup s c cmd.key cmd.creat created now = some n := by
    rw [neighLookup, hentry]
  rw [processArpCommand, hlookup]
  exact table_setEntry_self _

theorem Due.process (h : Due key sha k i s)
    (hstep : processCommand s c now created = some t) : Due key sha k i t := by
  unfold processCommand at hstep
  split at hstep
  · cases hstep
  · rename_i cmd rest hring
    cases hstep
    obtain ⟨n, hentry, hlearns, hstate⟩ := h.entry
    by_cases hi : i = c
    · subst hi
      have hagrees : cmd.key = key → cmd.sha = sha := h.agreeing cmd (hring ▸ mem_cons_self)
      have hleft : (processArpCommand (setRing s i rest) i cmd now created).ring i = rest := by
        rw [processArpCommand_ring]
        exact update_self ..
      refine ⟨fun cmd' hcmd' => ?_, ?_⟩
      · rw [hleft] at hcmd'
        exact h.agreeing cmd' (hring ▸ mem_cons_of_mem _ hcmd')
      · by_cases hmine : cmd.serial = k ∧ cmd.key = key ∧ cmd.state = .reachable
        · obtain ⟨-, rfl, hreach⟩ := hmine
          have hdone := processArpCommand_entry (s := setRing s i rest) hentry now created
          rw [hagrees rfl] at hdone
          obtain ⟨hkept, hnow⟩ := hlearns.neighUpdate cmd.asserted now cmd.override
          exact ⟨_, hdone, hkept, Or.inl (hnow (Or.inl hreach))⟩
        · have htaught : Taught sha (s.table i key)
              ((processArpCommand (setRing s i rest) i cmd now created).table i key) :=
            processArpCommand_taught (s := setRing s i rest) hagrees
          rw [hentry] at htaught
          obtain ⟨n', hentry', hlearns', hreach⟩ := htaught.learns hlearns
          refine ⟨n', hentry', hlearns', hstate.imp hreach ?_⟩
          rintro ⟨cmd', hcmd', hfacts⟩
          rw [hring] at hcmd'
          rcases mem_cons.mp hcmd' with rfl | hrest
          · exact absurd hfacts hmine
          · exact ⟨cmd', hleft.symm ▸ hrest, hfacts⟩
    · have hsame : (processArpCommand (setRing s c rest) c cmd now created).ring i = s.ring i := by
        rw [processArpCommand_ring]
        exact update_of_ne hi ..
      refine ⟨hsame.symm ▸ h.agreeing, n, ?_, hlearns, hsame.symm ▸ hstate⟩
      exact (processArpCommand_table_of_ne cmd now created hi).trans hentry

theorem Due.step {a : Action} (h : Due key sha k i s) (hguard : Agrees key sha s a)
    (hstep : step s a = some t) : Due key sha k i t := by
  cases a with
  | receive c p env =>
    obtain ⟨-, rfl⟩ := of_guard hstep
    exact h.of_follows (.arpRcv hguard)
  | process c now created => exact h.process hstep
  | change c key' entry =>
    cases hstep
    refine h.of_follows ⟨?_, ?_⟩
    · intro j
      have hsame : update s.table c (update (s.table c) key' entry) j key = s.table j key := by
        by_cases hj : j = c
        · subst hj
          rw [update_self, update_of_ne (Ne.symm hguard)]
        · rw [update_of_ne hj]
      dsimp only
      rw [hsame]
      exact .same _
    · intro j
      exact ⟨[], (append_nil _).symm, by simp [Agreeing]⟩

theorem UnicastReply.arpRcv_eq (h : UnicastReply s p env) :
    arpRcv s c p env = { updateTables s c p env with clock := s.clock + 1 } := by
  have htype : ¬ (p.pktType = .otherhost ∨ p.pktType = .loopback) := by
    rw [h.pktType]
    decide
  have hhrd : ¬ (p.arHrd ≠ 1 ∧ p.arHrd ≠ 6 ∨ p.arPro ≠ 2048) := by
    have := h.arHrd
    have := h.arPro
    omega
  have hop : ¬ (p.arOp ≠ arpopReply ∧ p.arOp ≠ arpopRequest) := by
    rw [h.arOp]
    decide
  have htip : ¬ (ipv4IsMulticast p.tip = true ∨
      s.routeLocalnet = false ∧ ipv4IsLoopback p.tip = true) := by
    rintro (hmulticast | ⟨hlocal, hloopback⟩)
    · rw [h.tip.1] at hmulticast
      cases hmulticast
    · rw [h.tip.2 hlocal] at hloopback
      cases hloopback
  have hrequest : ¬ p.arOp = arpopRequest := by
    rw [h.arOp]
    decide
  rw [arpRcv, if_neg htype, arpProcess, if_neg (by simp [h.inDev]), if_neg hhrd, if_neg hop,
    if_neg htip, if_neg h.sip, if_neg hrequest]

theorem UnicastReply.due {m : Neighbour} (h : UnicastReply s p env)
    (hknown : s.table c p.key = some m) (hsend : env.sendable i = true)
    (hagreeing : Agreeing p.key p.sha (s.ring i)) (hi : i < s.numProcs)
    (hwaits : Waits s i p.key) : Due p.key p.sha s.clock i (arpRcv s c p env) := by
  have hasserted : assertedState p = .reachable := by
    rw [assertedState, if_neg (by simp [h.arOp, h.pktType])]
  have hlookup : neighLookup s c p.key (creat s c p env) env.created env.now = some m := by
    rw [neighLookup, hknown]
  obtain ⟨n, hentry, hinvalid⟩ := hwaits
  have hlearns : Learns p.sha n := Or.inl hinvalid
  rw [h.arpRcv_eq, updateTables, hlookup]
  dsimp only
  rw [foldl_notify]
  constructor
  · intro cmd hcmd
    dsimp only at hcmd
    split at hcmd
    · rcases mem_append.mp hcmd with hold | hnew
      · exact hagreeing cmd hold
      · rw [mem_singleton] at hnew
        subst hnew
        intro _
        rfl
    · exact hagreeing cmd hcmd
  · by_cases hic : i = c
    · subst hic
      rw [hknown] at hentry
      cases hentry
      obtain ⟨hkept, hnow⟩ := hlearns.neighUpdate (assertedState_cases p) env.now
        (decide (m.updated + s.locktime < env.now) || isGarp s p env)
      exact ⟨_, table_setEntry_self _, hkept, Or.inl (hnow (Or.inl hasserted))⟩
    · refine ⟨n, ?_, hlearns, Or.inr ?_⟩
      · exact (table_setEntry_of_ne _ (Or.inl hic)).trans hentry
      · dsimp only
        rw [if_pos ⟨hi, hic, hsend⟩]
        exact ⟨_, mem_append_right _ (mem_singleton_self _), rfl, rfl, hasserted⟩

/-- A process `i` waits, and a unicast reply comes to a process with an entry of its own, while no
command under way to `i` tells otherwise, with a command buffer and room in the ring of `i`. -/
theorem arp_reply_reaches_waiting (hreply : UnicastReply s p env)
    (hknown : (s.table c p.key).isSome = true) (hsend : env.sendable i = true)
    (hagreeing : Agreeing p.key p.sha (s.ring i)) (hstep : step s (.receive c p env) = some t)
    {u : State} (hrun : (systemFrom t).ReachableUnder (Agrees p.key p.sha) u)
    (hdone : ∀ cmd ∈ u.ring i, cmd.serial ≠ s.clock) (hi : i < s.numProcs)
    (hwaits : Waits s i p.key) : ReachableAt u i p.key p.sha := by
  obtain ⟨m, hm⟩ := Option.isSome_iff_exists.mp hknown
  obtain ⟨-, rfl⟩ := of_guard hstep
  have hdue : Due p.key p.sha s.clock i u := by
    apply hrun.invariant
    · rintro u rfl
      exact hreply.due hm hsend hagreeing hi hwaits
    · intro u a u' h hguard hstep
      exact h.step hguard hstep
  obtain ⟨n, hentry, -, hreach | ⟨cmd, hcmd, hserial, -⟩⟩ := hdue.entry
  · exact ⟨n, hentry, hreach⟩
  · exact absurd hserial (hdone cmd hcmd)

end Entry

def reply : Packet where
  port := 0
  pktType := .host
  arHrd := 1
  arPro := 2048
  arOp := arpopReply
  sha := 77
  sip := 167772162
  tip := 167772161

def atRest : Env where
  now := 1000
  inDev := true
  route := .failed
  unicast := true
  created := true
  sendable := fun _ => true

def waiting (both : Bool) : State where
  numProcs := 2
  arpAccept := false
  routeLocalnet := false
  locktime := 100
  table := fun c key =>
    if key = reply.key ∧ (c = 1 ∨ both = true) then some ⟨.incomplete, 0, 900⟩ else none
  ring := fun _ => []
  clock := 5

theorem reply_unicast (both : Bool) : UnicastReply (waiting both) reply atRest :=
  ⟨rfl, Or.inl rfl, rfl, rfl, rfl, ⟨by decide, fun _ => by decide⟩, by decide⟩

theorem waiting_waits (both : Bool) : Waits (waiting both) 1 reply.key :=
  ⟨⟨.incomplete, 0, 900⟩, by simp [waiting], rfl⟩

theorem arp_reply_reaches_waiting_two :
    ∃ t u, step (waiting true) (.receive 0 reply atRest) = some t ∧
      (systemFrom t).ReachableUnder (Agrees reply.key reply.sha) u ∧
      ReachableAt u 1 reply.key reply.sha := by
  obtain ⟨t, ht⟩ : ∃ t, step (waiting true) (.receive 0 reply atRest) = some t := ⟨_, rfl⟩
  obtain ⟨u, hu⟩ : ∃ u, step t (.process 1 1001 true) = some u := by
    cases ht
    exact ⟨_, rfl⟩
  have hrun : (systemFrom t).ReachableUnder (Agrees reply.key reply.sha) u :=
    .next (a := .process 1 1001 true) (.start rfl) trivial hu
  have hring : u.ring 1 = [] := by
    cases ht
    cases hu
    rfl
  refine ⟨t, u, ht, hrun, ?_⟩
  apply arp_reply_reaches_waiting (reply_unicast true) (by decide) rfl _ ht hrun _ (by decide)
    (waiting_waits true)
  · intro cmd hcmd
    cases hcmd
  · intro cmd hcmd
    rw [hring] at hcmd
    cases hcmd

theorem arp_reply_ignored : ∃ t, step (waiting false) (.receive 0 reply atRest) = some t ∧
      UnicastReply (waiting false) reply atRest ∧ Waits (waiting false) 1 reply.key ∧
      (∀ j, t.ring j = []) ∧ Waits t 1 reply.key := by
  refine ⟨_, rfl, reply_unicast false, waiting_waits false, fun j => rfl, ?_⟩
  exact ⟨⟨.incomplete, 0, 900⟩, rfl, rfl⟩

end LightStack.Arp
