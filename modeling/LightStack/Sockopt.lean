import Mathlib.Data.List.Basic
import Mathlib.Tactic.Common

/-!
# Socket options

`light_setsockopt` copies the value of an option into a command or, before the socket is
initialised, into the one record of the descriptor. `light_bind` initialises the socket and its
copies; `_light_socket_init` sets the option of the record, whoever left it there.
-/

namespace LightStack.Sockopt

open List

/-! ## light_setsockopt -/

structure Opt where
  level : Int
  optname : Int
  null : Bool
  optval : Nat → UInt8
  optlen : Nat

structure Cmd where
  level : Int
  optname : Int
  optval : List UInt8
  deriving DecidableEq

abbrev storage : Nat := 128

abbrev solSocket : Int := 1

abbrev soRcvtimeo : Int := 20

abbrev soSndtimeo : Int := 21

abbrev timeval : Nat := 16

namespace Opt

def bytes (opt : Opt) (n : Nat) : List UInt8 := (List.range n).map opt.optval

def cmd (opt : Opt) : Cmd := ⟨opt.level, opt.optname, opt.bytes opt.optlen⟩

def isTimeout (opt : Opt) : Bool :=
  decide (opt.level = solSocket) &&
    (decide (opt.optname = soSndtimeo) || decide (opt.optname = soRcvtimeo))

def rejected (opt : Opt) : Bool := decide (opt.optlen = 0) || opt.null

def copyTo (opt : Opt) (old : Nat → UInt8) : Opt :=
  { opt with null := false, optval := fun i => if i < opt.optlen then opt.optval i else old i }

end Opt

inductive Supply where
  | noBuffer
  | noRoom
  | granted
  deriving DecidableEq

inductive Effect where
  | store
  | fill (proc : Nat)
  | issue (proc : Nat) (cmd : Cmd)
  | setTimeout (proc : Nat) (value : List UInt8)
  deriving DecidableEq

def command (opt : Opt) (proc : Nat) : Supply → List Effect × Option Int
  | .noBuffer => ([], some (-1))
  | .noRoom => ([.fill proc], some (-2))
  | .granted => ([.fill proc, .issue proc opt.cmd] ++
      if opt.isTimeout then [.setTimeout proc (opt.bytes timeval)] else [], none)

def commands (opt : Opt) : Nat → List (Bool × Supply) → List Effect × Int
  | _, [] => ([], 0)
  | proc, (false, _) :: rest => commands opt (proc + 1) rest
  | proc, (true, supply) :: rest =>
    match command opt proc supply with
    | (effects, some ret) => (effects, ret)
    | (effects, none) =>
      (effects ++ (commands opt (proc + 1) rest).1, (commands opt (proc + 1) rest).2)

inductive Socket where
  | uninitialised
  | single (proc : Nat) (supply : Supply)
  | multicore (copies : List (Bool × Supply))

def lightSetsockopt (socket : Socket) (opt : Opt) : List Effect × Int :=
  if opt.rejected then ([], -1)
  else
    match socket with
    | .uninitialised => ([.store], 0)
    | .single proc supply => ((command opt proc supply).1, (command opt proc supply).2.getD 0)
    | .multicore copies => commands opt 0 copies

def Effect.Safe (opt : Opt) : Effect → Prop
  | .store => opt.optlen ≤ storage
  | .fill _ => opt.optlen ≤ storage
  | .issue _ cmd => cmd = opt.cmd
  | .setTimeout _ value => value.length ≤ opt.optlen

def Socket.first : Socket → Option Supply
  | .uninitialised => none
  | .single _ supply => some supply
  | .multicore copies => (copies.find? (·.1)).map (·.2)

def Fits (opt : Opt) : Option Supply → Prop
  | none => True
  | some .noBuffer => True
  | some .noRoom => opt.optlen ≤ storage
  | some .granted => opt.optlen ≤ storage ∧ (opt.isTimeout = true → timeval ≤ opt.optlen)

variable {opt : Opt}

theorem length_bytes (opt : Opt) (n : Nat) : (opt.bytes n).length = n := by simp [Opt.bytes]

theorem command_safe_iff (proc : Nat) (supply : Supply) :
    (∀ effect ∈ (command opt proc supply).1, effect.Safe opt) ↔ Fits opt (some supply) := by
  cases supply with
  | noBuffer => simp [command, Fits]
  | noRoom => simp [command, Fits, Effect.Safe]
  | granted => cases htimeout : opt.isTimeout <;>
      simp [command, Fits, Effect.Safe, htimeout, length_bytes]

theorem fits_of_granted {supply : Option Supply} (h : Fits opt (some .granted)) :
    Fits opt supply := by
  match supply with
  | none => trivial
  | some .noBuffer => trivial
  | some .noRoom => exact h.1
  | some .granted => exact h

theorem commands_safe_iff (proc : Nat) (copies : List (Bool × Supply)) :
    (∀ effect ∈ (commands opt proc copies).1, effect.Safe opt) ↔
      Fits opt (Socket.multicore copies).first := by
  induction copies generalizing proc with
  | nil => simp [commands, Socket.first, Fits]
  | cons copy rest ih =>
    obtain ⟨isInit, supply⟩ := copy
    cases isInit with
    | false => simpa [commands, Socket.first] using ih (proc + 1)
    | true =>
      change _ ↔ Fits opt (some supply)
      cases supply with
      | noBuffer => exact command_safe_iff proc .noBuffer
      | noRoom => exact command_safe_iff proc .noRoom
      | granted =>
        change (∀ effect ∈ (command opt proc .granted).1 ++ (commands opt (proc + 1) rest).1, _) ↔ _
        rw [forall_mem_append, command_safe_iff, ih]
        exact and_iff_left_of_imp fits_of_granted

def Socket.Fits (opt : Opt) : Socket → Prop
  | .uninitialised => opt.optlen ≤ storage
  | socket => Sockopt.Fits opt socket.first

/-- A call is safe exactly when it is rejected or its length fits, and for a timeout has the size of
a `struct timeval` too. -/
theorem setsockopt_length_safe (socket : Socket) (opt : Opt) :
    (∀ effect ∈ (lightSetsockopt socket opt).1, effect.Safe opt) ↔
      opt.optlen = 0 ∨ opt.null = true ∨ socket.Fits opt := by
  unfold lightSetsockopt
  split
  · next hrejected =>
    refine iff_of_true (by simp) ?_
    simp only [Opt.rejected, Bool.or_eq_true, decide_eq_true_eq] at hrejected
    exact hrejected.imp_right .inl
  · next haccepted =>
    simp only [Opt.rejected, Bool.or_eq_true, decide_eq_true_eq, not_or] at haccepted
    rw [or_iff_right haccepted.1, or_iff_right haccepted.2]
    cases socket with
    | uninitialised => simp [Effect.Safe, Socket.Fits]
    | single proc supply => exact command_safe_iff proc supply
    | multicore copies => exact commands_safe_iff 0 copies

theorem long_option_overruns :
    let long : Opt := ⟨1, 13, false, fun _ => 0, 129⟩
    let short : Opt := ⟨1, 20, false, fun _ => 0, 8⟩
    lightSetsockopt .uninitialised long = ([.store], 0) ∧ ¬ Effect.store.Safe long ∧
      .setTimeout 0 (short.bytes 16) ∈ (lightSetsockopt (.single 0 .granted) short).1 ∧
      ¬ (Effect.setTimeout 0 (short.bytes 16)).Safe short := by
  refine ⟨by decide, ?_, by decide, ?_⟩
  · simp [Effect.Safe]
  · simp [Effect.Safe, Opt.bytes]

/-! ## Initialisation -/

/-- What is done with a socket before it is initialised: an option is set (`copies` are the sockets
that a multicore socket has behind itself, left by an earlier owner), or `light_bind` fails before
its command is posted. -/
inductive Early where
  | set (opt : Opt) (copies : List (Bool × Supply))
  | bind

structure Descriptor where
  isMulticore : Bool
  record : Opt

namespace Descriptor

def call (d : Descriptor) (opt : Opt) (copies : List (Bool × Supply)) : List Effect :=
  (lightSetsockopt (if d.isMulticore then .multicore ((false, .noBuffer) :: copies)
    else .uninitialised) opt).1

def step (d : Descriptor) : Early → Descriptor
  | .set opt copies =>
    if .store ∈ d.call opt copies then { d with record := opt.copyTo d.record.optval } else d
  | .bind => { d with isMulticore := true }

end Descriptor

def record (stale : Opt) (calls : List Early) : Opt :=
  (calls.foldl Descriptor.step ⟨false, stale⟩).record

structure Other where
  isInit : Bool
  supply : Supply
  stale : Opt

structure Outcome where
  effects : List Effect
  options : Nat → List Cmd
  timeout : Nat → Int → Option (List UInt8)

def issued (proc : Nat) (effects : List Effect) : List Cmd :=
  effects.filterMap fun
    | .issue p cmd => if p = proc then some cmd else none
    | _ => none

def timeoutSet (proc : Nat) (effects : List Effect) : Option (List UInt8) :=
  effects.findSome? fun
    | .setTimeout p value => if p = proc then some value else none
    | _ => none

def outcome (left : Opt) (effects : List Effect) : Outcome where
  effects := effects
  options proc := if proc = 0 then issued 0 effects else []
  timeout proc optname :=
    if proc = 0 ∧ left.optname = optname then timeoutSet 0 effects else none

def replay (left : Opt) (supply : Supply) (others : List Other) : List Effect :=
  (lightSetsockopt
    (.multicore ((true, supply) :: others.map fun other => (other.isInit, other.supply)))
    { left with null := false }).1

/-- The `light_bind` that succeeds. A copy with a record of its own indexes `true_to_light[-1]`. -/
def lightBind (left : Opt) (supply : Supply) (others : List Other) : Option Outcome :=
  if ∀ other ∈ others, other.stale.optlen = 0 then some (outcome left (replay left supply others))
  else none

def lastValue (cmds : List Cmd) (level optname : Int) : Option (List UInt8) :=
  (cmds.filter fun cmd => cmd.level = level ∧ cmd.optname = optname).getLast?.map (·.optval)

namespace Early

def isSet : Early → Bool
  | set _ _ => true
  | bind => false

def accepted : Early → Option (Opt × List (Bool × Supply))
  | set opt copies => if opt.rejected then none else some (opt, copies)
  | bind => none

end Early

def made (calls : List Early) : List Opt := (calls.filterMap Early.accepted).map Prod.fst

/-- The options that are set before a `light_bind` fails. -/
def stored (calls : List Early) : List Opt := made (calls.takeWhile Early.isSet)

def late (calls : List Early) : List (Opt × List (Bool × Supply)) :=
  (calls.dropWhile Early.isSet).filterMap Early.accepted

def Effect.Quiet (opt : Opt) : Effect → Prop
  | .store => opt.optlen ≤ storage
  | .fill _ => opt.optlen ≤ storage
  | _ => False

/-- Before the socket is initialised nothing is copied out of bounds, and nothing issued. -/
def Quiet (d : Descriptor) : List Early → Prop
  | [] => True
  | .set opt copies :: rest =>
    (∀ effect ∈ d.call opt copies, effect.Quiet opt) ∧ Quiet (d.step (.set opt copies)) rest
  | .bind :: rest => Quiet (d.step .bind) rest

structure Restored (made : List Opt) (left : Opt) (procs : Nat) (outcome : Outcome) : Prop where
  filled : ∀ proc, .fill proc ∈ outcome.effects → left.optlen ≤ storage
  options : ∀ proc < procs, ∀ level optname,
    lastValue (outcome.options proc) level optname = lastValue (made.map Opt.cmd) level optname
  timeouts : ∀ proc < procs, ∀ optname ∈ [soSndtimeo, soRcvtimeo], outcome.timeout proc optname =
    (lastValue (made.map Opt.cmd) solSocket optname).map (·.take timeval)
  silent : made = [] → ∀ proc cmd, .issue proc cmd ∉ outcome.effects

def Unheard (opt : Opt) (copies : List (Bool × Supply)) : Prop :=
  match (Socket.multicore copies).first with
  | none => True
  | some .noBuffer => True
  | some .noRoom => opt.optlen ≤ storage
  | some .granted => False

def Replayed (made : List Opt) (left : Opt) (supply : Supply) (others : List Other) : Prop :=
  match made.getLast? with
  | none => left.optlen = 0 ∨ supply = .noBuffer ∨ (supply = .noRoom ∧ left.optlen ≤ storage)
  | some last =>
    others = [] ∧ supply = .granted ∧ left.cmd = last.cmd ∧ last.optlen ≤ storage ∧
      (∀ opt ∈ made, opt.level = last.level ∧ opt.optname = last.optname) ∧
      (last.isTimeout = true → timeval ≤ last.optlen)

section Record

variable {stale : Opt} {calls : List Early}

theorem commands_quiet_iff (proc : Nat) (copies : List (Bool × Supply)) :
    (∀ effect ∈ (commands opt proc copies).1, effect.Quiet opt) ↔ Unheard opt copies := by
  induction copies generalizing proc with
  | nil => simp [commands, Unheard, Socket.first]
  | cons copy rest ih =>
    obtain ⟨isInit, supply⟩ := copy
    cases isInit with
    | false => simpa [commands, Unheard, Socket.first] using ih (proc + 1)
    | true => cases supply <;> simp [commands, command, Unheard, Socket.first, Effect.Quiet]

theorem call_rejected (d : Descriptor) (copies : List (Bool × Supply))
    (h : opt.rejected = true) : d.call opt copies = [] := by
  simp [Descriptor.call, lightSetsockopt, h]

theorem call_single (copies : List (Bool × Supply)) (h : ¬ opt.rejected = true) :
    (⟨false, stale⟩ : Descriptor).call opt copies = [.store] := by
  simp [Descriptor.call, lightSetsockopt, h]

theorem call_multicore (copies : List (Bool × Supply)) (h : ¬ opt.rejected = true) :
    (⟨true, stale⟩ : Descriptor).call opt copies = (commands opt 1 copies).1 := by
  simp [Descriptor.call, lightSetsockopt, h, commands]

theorem store_notMem_commands (proc : Nat) (copies : List (Bool × Supply)) :
    .store ∉ (commands opt proc copies).1 := by
  induction copies generalizing proc with
  | nil => simp [commands]
  | cons copy rest ih =>
    obtain ⟨isInit, supply⟩ := copy
    cases isInit with
    | false => exact ih (proc + 1)
    | true => cases supply <;> cases h : opt.isTimeout <;> simp [commands, command, ih, h]

theorem step_multicore (e : Early) : (⟨true, stale⟩ : Descriptor).step e = ⟨true, stale⟩ := by
  cases e with
  | bind => rfl
  | set opt copies =>
    refine if_neg fun hstore => ?_
    by_cases hrejected : opt.rejected = true
    · simp [call_rejected _ copies hrejected] at hstore
    · rw [call_multicore copies hrejected] at hstore
      exact store_notMem_commands 1 copies hstore

theorem quiet_multicore_iff :
    Quiet ⟨true, stale⟩ calls ↔ ∀ x ∈ calls.filterMap Early.accepted, Unheard x.1 x.2 := by
  induction calls with
  | nil => simp [Quiet]
  | cons e rest ih =>
    cases e with
    | bind => simpa [Quiet, step_multicore, Early.accepted] using ih
    | set opt copies =>
      rw [Quiet, step_multicore, ih]
      by_cases hrejected : opt.rejected = true
      · simp [call_rejected _ copies hrejected, Early.accepted, hrejected]
      · rw [call_multicore copies hrejected, commands_quiet_iff]
        simp [Early.accepted, hrejected]

theorem stored_set (opt : Opt) (copies : List (Bool × Supply)) : stored (.set opt copies :: calls) =
    if opt.rejected then stored calls else opt :: stored calls := by
  cases h : opt.rejected <;> simp [stored, made, takeWhile_cons, Early.isSet, Early.accepted, h]

theorem late_set (opt : Opt) (copies : List (Bool × Supply)) :
    late (.set opt copies :: calls) = late calls := by
  simp [late, dropWhile_cons, Early.isSet]

theorem quiet_iff : Quiet ⟨false, stale⟩ calls ↔
    (∀ opt ∈ stored calls, opt.optlen ≤ storage) ∧ ∀ x ∈ late calls, Unheard x.1 x.2 := by
  induction calls generalizing stale with
  | nil => simp [Quiet, stored, made, late]
  | cons e rest ih =>
    cases e with
    | bind =>
      rw [Quiet, Descriptor.step, quiet_multicore_iff]
      exact ⟨fun h => ⟨nofun, h⟩, fun h => h.2⟩
    | set opt copies =>
      rw [late_set, stored_set]
      by_cases hrejected : opt.rejected = true
      · rw [Quiet, Descriptor.step, call_rejected _ copies hrejected, if_neg not_mem_nil, ih,
          if_pos hrejected, and_iff_right nofun]
      · rw [Quiet, Descriptor.step, call_single copies hrejected, if_pos (mem_singleton_self _), ih,
          if_neg hrejected, forall_mem_singleton, forall_mem_cons, and_assoc]
        rfl

theorem bytes_copyTo {n : Nat} (opt : Opt) (old : Nat → UInt8) (h : n ≤ opt.optlen) :
    (opt.copyTo old).bytes n = opt.bytes n := by
  refine map_congr_left fun i hi => ?_
  have hlt := mem_range.mp hi
  exact if_pos (by omega)

theorem cmd_copyTo (opt : Opt) (old : Nat → UInt8) : (opt.copyTo old).cmd = opt.cmd :=
  congrArg (Cmd.mk opt.level opt.optname) (bytes_copyTo opt old (Nat.le_refl _))

/-- The record is that of the last option stored. -/
theorem record_cmd : (record stale calls).cmd = ((stored calls).getLast?.getD stale).cmd := by
  unfold record
  induction calls generalizing stale with
  | nil => rfl
  | cons e rest ih =>
    rw [foldl_cons]
    cases e with
    | bind => rw [Descriptor.step, foldl_fixed' step_multicore rest]; rfl
    | set opt copies =>
      rw [stored_set]
      by_cases hrejected : opt.rejected = true
      · rw [Descriptor.step, call_rejected _ copies hrejected, if_neg not_mem_nil, ih,
          if_pos hrejected]
      · rw [Descriptor.step, call_single copies hrejected, if_pos (mem_singleton_self _), ih,
          if_neg hrejected, getLast?_cons, Option.getD_some]
        cases (stored rest).getLast? with
        | none => exact cmd_copyTo opt stale.optval
        | some last => rfl

end Record

section Replay

variable {left last : Opt} {made : List Opt} {supply : Supply} {others : List Other}

theorem replay_of_zero (h : left.optlen = 0) : replay left supply others = [] := by
  simp [replay, lightSetsockopt, Opt.rejected, h]

theorem commands_first (opt : Opt) (proc : Nat) (supply : Supply) (rest : List (Bool × Supply)) :
    ∃ tail, (commands opt proc ((true, supply) :: rest)).1 = (command opt proc supply).1 ++ tail ∧
      (supply ≠ .granted ∨ rest = [] → tail = []) := by
  cases supply with
  | noBuffer => exact ⟨[], rfl, fun _ => rfl⟩
  | noRoom => exact ⟨[], rfl, fun _ => rfl⟩
  | granted =>
    refine ⟨(commands opt (proc + 1) rest).1, rfl, fun h => ?_⟩
    rw [h.resolve_left (fun hne => hne rfl)]
    rfl

theorem replay_eq (h : left.optlen ≠ 0) : ∃ tail, replay left supply others =
        (command { left with null := false } 0 supply).1 ++ tail ∧
      (supply ≠ .granted ∨ others = [] → tail = []) := by
  have haccepted : { left with null := false : Opt }.rejected = false := by simp [Opt.rejected, h]
  obtain ⟨tail, heq, htail⟩ := commands_first { left with null := false } 0 supply
    (others.map fun other => (other.isInit, other.supply))
  refine ⟨tail, ?_, fun h => htail (h.imp_right fun hnil => by rw [hnil]; rfl)⟩
  rw [replay, lightSetsockopt, haccepted]
  exact heq

theorem restored_iff_of_nil (procs : Nat) :
    Restored [] left procs (outcome left (replay left supply others)) ↔
      Replayed [] left supply others := by
  rw [Replayed]
  constructor
  · intro h
    by_cases hzero : left.optlen = 0
    · exact .inl hzero
    · obtain ⟨tail, heq, -⟩ := @replay_eq left supply others hzero
      have hsilent := h.silent rfl
      have hfilled := h.filled 0
      rw [heq] at hsilent hfilled
      cases supply with
      | noBuffer => exact .inr (.inl rfl)
      | noRoom => exact .inr (.inr ⟨rfl, hfilled (by simp [outcome, command])⟩)
      | granted =>
        exact absurd (by simp [outcome, command]) (hsilent 0 (Opt.cmd { left with null := false }))
  · intro h
    have hreplay : replay left supply others = [] ∨
        replay left supply others = [.fill 0] ∧ left.optlen ≤ storage := by
      by_cases hzero : left.optlen = 0
      · exact .inl (replay_of_zero hzero)
      · obtain ⟨tail, heq, htail⟩ := @replay_eq left supply others hzero
        obtain rfl | ⟨rfl, hlen⟩ := h.resolve_left hzero
        · exact .inl (by rw [heq, htail (.inl (by decide))]; rfl)
        · exact .inr ⟨by rw [heq, htail (.inl (by decide))]; rfl, hlen⟩
    obtain heq | ⟨heq, hlen⟩ := hreplay
    · rw [heq]
      constructor <;> simp [outcome, issued, timeoutSet, lastValue]
    · rw [heq]
      constructor <;> simp [outcome, issued, timeoutSet, lastValue, hlen]

theorem lastValue_uniform (h : made.getLast? = some last)
    (hsame : ∀ opt ∈ made, opt.level = last.level ∧ opt.optname = last.optname)
    (level optname : Int) :
    lastValue (made.map Opt.cmd) level optname =
      if last.level = level ∧ last.optname = optname then some last.cmd.optval else none := by
  split
  · next hkey =>
    obtain ⟨front, rfl⟩ := List.getLast?_eq_some_iff.mp h
    simp [lastValue, Opt.cmd, hkey]
  · next hkey =>
    rw [lastValue, filter_eq_nil_iff.mpr]
    · rfl
    · simp only [forall_mem_map]
      intro opt hopt
      simpa [Opt.cmd, hsame opt hopt] using hkey

theorem lastValue_singleton (opt : Opt) (level optname : Int) : lastValue [opt.cmd] level optname =
      if opt.level = level ∧ opt.optname = optname then some opt.cmd.optval else none :=
  @lastValue_uniform opt [opt] rfl (by simp) level optname

theorem lastValue_last (h : made.getLast? = some last) :
    lastValue (made.map Opt.cmd) last.level last.optname = some last.cmd.optval := by
  obtain ⟨front, rfl⟩ := List.getLast?_eq_some_iff.mp h
  simp [lastValue, Opt.cmd]

theorem lastValue_isSome (h : opt ∈ made) :
    (lastValue (made.map Opt.cmd) opt.level opt.optname).isSome = true := by
  rw [lastValue, Option.isSome_map, List.getLast?_isSome]
  exact ne_nil_of_mem (mem_filter.mpr ⟨mem_map_of_mem h, by simp [Opt.cmd]⟩)

theorem options_granted (left : Opt) :
    (outcome left (command { left with null := false } 0 .granted).1).options 0 = [left.cmd] := by
  have hsame : { left with null := false : Opt }.cmd = left.cmd := rfl
  cases htimeout : { left with null := false : Opt }.isTimeout <;>
    simp [outcome, issued, command, htimeout, hsame]

theorem timeout_granted (left : Opt) (optname : Int) :
    (outcome left (command { left with null := false } 0 .granted).1).timeout 0 optname =
      if left.optname = optname ∧ left.isTimeout = true then some (left.bytes timeval)
      else none := by
  have hsame : { left with null := false : Opt }.isTimeout = left.isTimeout := rfl
  cases htimeout : left.isTimeout <;>
    simp [outcome, timeoutSet, command, hsame, htimeout, Opt.bytes]

theorem optlen_eq_of_cmd (h : left.cmd = last.cmd) : left.optlen = last.optlen := by
  have hlength := congrArg (fun cmd => cmd.optval.length) h
  simpa [Opt.cmd, length_bytes] using hlength

theorem isTimeout_eq_of_cmd (h : left.cmd = last.cmd) : left.isTimeout = last.isTimeout := by
  simp only [Opt.cmd, Cmd.mk.injEq] at h
  simp [Opt.isTimeout, h.1, h.2.1]

theorem take_bytes {n : Nat} (opt : Opt) :
    opt.cmd.optval.take n = opt.bytes (min n opt.optlen) := by
  simp [Opt.cmd, Opt.bytes, ← map_take, take_range]

theorem restored_iff_of_last (hlast : made.getLast? = some last) (hlen : last.optlen ≠ 0) :
    Restored made left (others.length + 1) (outcome left (replay left supply others)) ↔
      Replayed made left supply others := by
  have hmem : last ∈ made := List.mem_of_getLast? hlast
  have hvalue := lastValue_last hlast
  rw [Replayed, hlast]
  constructor
  · intro h
    have hothers : others = [] := by
      by_contra hne
      have hpos := length_pos_iff.mpr hne
      have hcopy := h.options 1 (by omega) last.level last.optname
      rw [hvalue] at hcopy
      simp [outcome, lastValue] at hcopy
    have hoptions := h.options 0 (Nat.succ_pos _)
    have hzero : left.optlen ≠ 0 := by
      intro hzero
      have hnone := hoptions last.level last.optname
      rw [hvalue, replay_of_zero hzero] at hnone
      simp [outcome, lastValue, issued] at hnone
    obtain ⟨tail, heq, htail⟩ := @replay_eq left supply others hzero
    rw [htail (.inr hothers), append_nil] at heq
    rw [heq] at hoptions
    cases supply with
    | noBuffer | noRoom =>
      have hnone := hoptions last.level last.optname
      rw [hvalue] at hnone
      simp [outcome, lastValue, command, issued] at hnone
    | granted =>
      rw [options_granted] at hoptions
      have hcmd : left.cmd = last.cmd := by
        have hone := hoptions last.level last.optname
        rw [hvalue, lastValue_singleton] at hone
        obtain ⟨⟨hlevel, hname⟩, hbytes⟩ := Option.ite_none_right_eq_some.mp hone
        exact Cmd.mk.injEq .. |>.mpr ⟨hlevel, hname, Option.some.inj hbytes⟩
      refine ⟨hothers, rfl, hcmd, ?_, fun opt hopt => ?_, fun htimeout => ?_⟩
      · rw [← optlen_eq_of_cmd hcmd]
        exact h.filled 0 (by simp [heq, outcome, command])
      · have hsome := lastValue_isSome hopt
        by_contra hne
        simp only [Opt.cmd, Cmd.mk.injEq] at hcmd
        rw [← hoptions, lastValue_singleton, hcmd.1, hcmd.2.1,
          if_neg fun hkey => hne ⟨hkey.1.symm, hkey.2.symm⟩] at hsome
        cases hsome
      · have hkind := htimeout
        simp only [Opt.isTimeout, Bool.and_eq_true, Bool.or_eq_true, decide_eq_true_eq] at hkind
        have hset := h.timeouts 0 (Nat.succ_pos _) last.optname (by simpa using hkind.2)
        rw [heq, timeout_granted, isTimeout_eq_of_cmd hcmd, ← hkind.1, hvalue, Option.map_some,
          take_bytes, if_pos ⟨congrArg Cmd.optname hcmd, htimeout⟩] at hset
        have hlength := congrArg List.length (Option.some.inj hset)
        rw [length_bytes, length_bytes] at hlength
        omega
  · rintro ⟨rfl, rfl, hcmd, hsize, hsame, htimeout⟩
    have hleft := optlen_eq_of_cmd hcmd
    have hvalue := lastValue_uniform hlast hsame
    obtain ⟨tail, heq, htail⟩ := @replay_eq left .granted [] (hleft ▸ hlen)
    rw [heq, htail (.inr rfl), append_nil]
    refine ⟨fun _ _ => hleft ▸ hsize, ?_, ?_, ?_⟩
    · intro proc hproc level optname
      obtain rfl : proc = 0 := by simpa using hproc
      rw [hvalue, options_granted, hcmd, lastValue_singleton]
    · intro proc hproc optname hname
      obtain rfl : proc = 0 := by simpa using hproc
      have hkind : last.level = solSocket ∧ last.optname = optname ↔
          left.optname = optname ∧ left.isTimeout = true := by
        rw [and_comm, isTimeout_eq_of_cmd hcmd, show left.optname = last.optname from
          congrArg Cmd.optname hcmd, and_congr_right_iff]
        rintro rfl
        have hone : last.optname = soSndtimeo ∨ last.optname = soRcvtimeo := by simpa using hname
        simp [Opt.isTimeout, hone]
      rw [timeout_granted, hvalue, if_congr hkind rfl rfl]
      split
      · next hkey =>
        have hfull := htimeout (isTimeout_eq_of_cmd hcmd ▸ hkey.2)
        rw [Option.map_some, ← hcmd, take_bytes, Nat.min_eq_left (hleft ▸ hfull)]
      · rfl
    · rintro rfl
      cases hmem

end Replay

theorem optlen_ne_zero_of_made {opt : Opt} {calls : List Early} (h : opt ∈ made calls) :
    opt.optlen ≠ 0 := by
  obtain ⟨⟨opt, copies⟩, hx, rfl⟩ := mem_map.mp h
  obtain ⟨e, -, he⟩ := mem_filterMap.mp hx
  cases e with
  | bind => cases he
  | set opt' copies' =>
    obtain ⟨haccepted, hpair⟩ := Option.ite_none_left_eq_some.mp he
    cases hpair
    simp only [Opt.rejected, Bool.or_eq_true, decide_eq_true_eq, not_or] at haccepted
    exact haccepted.1

/-- The options are restored exactly when the calls before are quiet, the copies have no records,
and there was no call, or one stack process and calls for one option only, whose value is in the
record and reaches the stack. -/
theorem options_replayed (stale : Opt) (calls : List Early) (supply : Supply)
    (others : List Other) :
    (Quiet ⟨false, stale⟩ calls ∧ ∃ outcome,
        lightBind (record stale calls) supply others = some outcome ∧
        Restored (made calls) (record stale calls) (others.length + 1) outcome) ↔
      (∀ opt ∈ stored calls, opt.optlen ≤ storage) ∧ (∀ x ∈ late calls, Unheard x.1 x.2) ∧
        (∀ other ∈ others, other.stale.optlen = 0) ∧
        Replayed (made calls) ((stored calls).getLast?.getD stale) supply others := by
  have hleft : Replayed (made calls) ((stored calls).getLast?.getD stale) supply others ↔
      Replayed (made calls) (record stale calls) supply others := by
    rw [Replayed, Replayed, record_cmd, optlen_eq_of_cmd record_cmd]
  rw [quiet_iff, and_assoc, hleft, lightBind]
  refine and_congr_right fun _ => and_congr_right fun _ => ?_
  split
  · next hothers =>
    rw [and_iff_right hothers]
    simp only [Option.some.injEq, exists_eq_left']
    cases hmade : (made calls).getLast? with
    | none =>
      rw [List.getLast?_eq_none_iff.mp hmade]
      exact restored_iff_of_nil _
    | some last =>
      exact restored_iff_of_last hmade (optlen_ne_zero_of_made (List.mem_of_getLast? hmade))
  · next hothers => simp [hothers]

/-- The second option takes the place of the first, an earlier owner's option is replayed, and an
option set after `light_bind` failed is not. -/
theorem first_option_lost :
    let reuse : Opt := ⟨1, 2, false, fun _ => 1, 4⟩
    let keepalive (x : UInt8) : Opt := ⟨1, 9, false, fun _ => x, 4⟩
    let fresh : Opt := ⟨0, 0, false, fun _ => 0, 0⟩
    let both : List Early := [.set reuse [], .set (keepalive 1) []]
    replay (record fresh both) .granted [] = [.fill 0, .issue 0 ⟨1, 9, [1, 1, 1, 1]⟩] ∧
      ¬ Restored (made both) (record fresh both) 1
        (outcome (record fresh both) (replay (record fresh both) .granted [])) ∧
      replay (record reuse []) .granted [] = [.fill 0, .issue 0 ⟨1, 2, [1, 1, 1, 1]⟩] ∧
      replay (record fresh [.set (keepalive 1) [], .bind, .set (keepalive 0) []]) .granted [] =
        [.fill 0, .issue 0 ⟨1, 9, [1, 1, 1, 1]⟩] := by
  refine ⟨by decide, fun h => ?_, by decide, by decide⟩
  exact absurd (h.options 0 (by decide) 1 2) (by decide)

end LightStack.Sockopt
