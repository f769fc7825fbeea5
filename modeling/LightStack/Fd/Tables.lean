import LightStack.Lib.Ring
import Mathlib

/-!
# The descriptor mapping tables

Two tables translate between placeholders and the indices of light objects, with `-1` where there is
no entry.
-/

namespace LightStack.Fd

open Lib Function List

def connectionPoolSize : Nat := 2048

def epollPoolSize : Nat := 64

def trueFdNum : Nat := 2000

def trueFdMaxSize : Nat := 3000

def fdRingCap : Nat := 2047

inductive Fault where
  | outOfBounds (index : Int)
  -- A pointer was followed that no statement has set.
  | uninitialised
  | exit
  deriving DecidableEq

inductive Kind where
  | socket
  | epoll

structure Tables where
  fullTrueFd : Nat → Bool
  lightToTrue : Nat → Option Nat
  trueToLight : Nat → Option Nat

structure Shared where
  ring : Ring Int fdRingCap
  storage : Nat

def entry : Option Nat → Int
  | none => -1
  | some n => n

def slot (size : Nat) (index : Int) : Except Fault Nat :=
  if 0 ≤ index ∧ index < size then .ok index.toNat
  else .error (.outOfBounds index)

@[simp]
theorem entry_none : entry none = -1 := rfl

@[simp]
theorem entry_some (n : Nat) : entry (some n) = n := rfl

variable {n light : Nat} {index : Int} {t : Tables} {kind : Kind} {sh : Shared}

theorem slot_eq_ok_iff {size : Nat} : slot size index = .ok n ↔ n < size ∧ index = n := by
  unfold slot
  split
  · rename_i h
    simp only [Except.ok.injEq]
    omega
  · rename_i h
    simp only [reduceCtorEq, false_iff]
    omega

theorem slot_natCast {size : Nat} (h : n < size) : slot size (n : Int) = .ok n :=
  slot_eq_ok_iff.mpr ⟨h, rfl⟩

theorem slot_neg_one (size : Nat) : slot size (-1) = .error (.outOfBounds (-1)) := by simp [slot]

/-! ## The functions on the tables -/

def isLightFd (t : Tables) (fd : Int) : Except Fault Bool := do
  let n ← slot trueFdMaxSize fd
  return t.fullTrueFd n

def lightFdToSocketEpollIndex (t : Tables) (fd : Int) : Except Fault (Int × Kind) := do
  let n ← slot trueFdMaxSize fd
  let ret := entry (t.trueToLight n)
  if connectionPoolSize ≤ ret then
    return (ret - connectionPoolSize, .epoll)
  else
    return (ret, .socket)

def lightIndex (index : Int) : Kind → Int
  | .socket => index
  | .epoll => index + connectionPoolSize

def socketEpollIndexToLightFd (t : Tables) (index : Int) (kind : Kind) : Except Fault Int := do
  let n ← slot trueFdMaxSize (lightIndex index kind)
  return entry (t.lightToTrue n)

def Tables.link (t : Tables) (light fd : Nat) : Tables :=
  { t with
    lightToTrue := update t.lightToTrue light (some fd)
    trueToLight := update t.trueToLight fd (some light) }

def Tables.unlink (t : Tables) (light fd : Nat) : Tables :=
  { t with
    lightToTrue := update t.lightToTrue light none
    trueToLight := update t.trueToLight fd none }

def getNewLightFd (t : Tables) (sh : Shared) (index : Int) (kind : Kind) :
    Except Fault (Int × Tables × Shared) :=
  match sh.ring.dequeue with
  | none => .error .uninitialised
  | some (fd, ring) => do
      let light ← slot trueFdMaxSize (lightIndex index kind)
      let n ← slot trueFdMaxSize fd
      return (fd, t.link light n, ⟨ring, sh.storage + 1⟩)

def putBackLightFd (t : Tables) (sh : Shared) (fd : Int) : Except Fault (Tables × Shared) :=
  match sh.storage with
  | 0 => .error .exit
  | storage + 1 =>
    match sh.ring.enqueue fd with
    | none => .error .exit
    | some ring => do
        let n ← slot trueFdMaxSize fd
        let light ← slot trueFdMaxSize (entry (t.trueToLight n))
        return (t.unlink light n, ⟨ring, storage⟩)

def emptyTables : Tables where
  fullTrueFd := fun _ => false
  lightToTrue := fun _ => none
  trueToLight := fun _ => none

def openPlaceholder (p : Tables × Shared) (fd : Int) : Except Fault (Tables × Shared) :=
  match p.2.storage with
  | 0 => .error .exit
  | storage + 1 =>
    if fd = -1 then .error .exit
    else do
      let n ← slot trueFdMaxSize fd
      match p.2.ring.enqueue fd with
      | none => .error .exit
      | some ring =>
        return ({ p.1 with
            fullTrueFd := update p.1.fullTrueFd n true },
          ⟨ring, storage⟩)

def fdMappingInit (fds : List Int) : Except Fault (Tables × Shared) :=
  fds.foldlM openPlaceholder (emptyTables, ⟨.empty, trueFdNum⟩)

theorem isLightFd_natCast (t : Tables) (h : n < trueFdMaxSize) :
    isLightFd t n = .ok (t.fullTrueFd n) := by
  simp [isLightFd, slot_natCast h, pure, Except.pure, bind, Except.bind]

theorem lightFdToSocketEpollIndex_of_none (h : n < trueFdMaxSize)
    (hnone : t.trueToLight n = none) : lightFdToSocketEpollIndex t n = .ok (-1, .socket) := by
  simp [lightFdToSocketEpollIndex, slot_natCast h, hnone, connectionPoolSize,
    pure, Except.pure, bind, Except.bind]

theorem lightFdToSocketEpollIndex_of_some (h : n < trueFdMaxSize)
    (hsome : t.trueToLight n = some light) :
    ∃ (index : Nat) (kind : Kind), lightFdToSocketEpollIndex t n = .ok (index, kind) ∧
        lightIndex index kind = light ∧
        (kind = .socket → index < connectionPoolSize) := by
  have heq : lightFdToSocketEpollIndex t n =
      if (connectionPoolSize : Int) ≤ light then
        .ok ((light : Int) - connectionPoolSize, .epoll)
      else .ok ((light : Int), .socket) := by
    simp only [lightFdToSocketEpollIndex, slot_natCast h, hsome, entry_some,
      pure, Except.pure, bind, Except.bind]
  by_cases hepoll : connectionPoolSize ≤ light
  · refine ⟨light - connectionPoolSize, .epoll, ?_, ?_, by simp⟩
    · rw [heq, if_pos (by omega), Nat.cast_sub hepoll]
    · simp only [lightIndex]
      omega
  · refine ⟨light, .socket, ?_, rfl, fun _ => Nat.lt_of_not_le hepoll⟩
    rw [heq, if_neg (by omega)]

theorem socketEpollIndexToLightFd_eq (hlight : lightIndex index kind = light)
    (h : light < trueFdMaxSize) :
    socketEpollIndexToLightFd t index kind = .ok (entry (t.lightToTrue light)) := by
  simp [socketEpollIndexToLightFd, hlight, slot_natCast h, pure, Except.pure, bind, Except.bind]

theorem getNewLightFd_eq {ring : Ring Int fdRingCap}
    (hring : sh.ring.items = (n : Int) :: ring.items) (hlight : lightIndex index kind = light)
    (hlt : light < trueFdMaxSize) (hn : n < trueFdMaxSize) :
    getNewLightFd t sh index kind = .ok (n, t.link light n, ⟨ring, sh.storage + 1⟩) := by
  have hdequeue := Ring.dequeue_eq_some_iff.mpr hring
  simp [getNewLightFd, hdequeue, hlight, slot_natCast hlt, slot_natCast hn,
    pure, Except.pure, bind, Except.bind]

theorem getNewLightFd_of_empty (hring : sh.ring.items = []) :
    getNewLightFd t sh index kind = .error .uninitialised := by
  simp [getNewLightFd, Ring.dequeue_eq_none_iff.mpr hring]

theorem getNewLightFd_neg_one (hring : sh.ring.items ≠ []) :
    getNewLightFd t sh (-1) .socket = .error (.outOfBounds (-1)) := by
  cases hdequeue : sh.ring.dequeue with
  | none => exact absurd (Ring.dequeue_eq_none_iff.mp hdequeue) hring
  | some p =>
    obtain ⟨fd, ring⟩ := p
    simp [getNewLightFd, hdequeue, lightIndex, slot_neg_one, bind, Except.bind]

theorem putBackLightFd_eq {storage : Nat} {ring : Ring Int fdRingCap}
    (hstorage : sh.storage = storage + 1) (hring : sh.ring.enqueue n = some ring)
    (hlight : t.trueToLight n = some light) (hlt : light < trueFdMaxSize) (hn : n < trueFdMaxSize) :
    putBackLightFd t sh n = .ok (t.unlink light n, ⟨ring, storage⟩) := by
  simp [putBackLightFd, hstorage, hring, slot_natCast hn, hlight,
    slot_natCast hlt, pure, Except.pure, bind, Except.bind]

theorem putBackLightFd_neg_one (t : Tables) (sh : Shared) :
    ∃ f, putBackLightFd t sh (-1) = .error f := by
  unfold putBackLightFd
  split
  · exact ⟨_, rfl⟩
  · split
    · exact ⟨_, rfl⟩
    · exact ⟨.outOfBounds (-1), by simp [slot_neg_one, bind, Except.bind]⟩

theorem foldlM_openPlaceholder (fds : List Nat) (t : Tables) (sh : Shared)
    (hlt : ∀ fd ∈ fds, fd < trueFdMaxSize) (hstorage : fds.length ≤ sh.storage)
    (hroom : sh.ring.items.length + fds.length ≤ fdRingCap) :
    ∃ sh' : Shared, (fds.map Int.ofNat).foldlM openPlaceholder (t, sh) =
        .ok ({ t with fullTrueFd := fun n => t.fullTrueFd n || decide (n ∈ fds) }, sh') ∧
      sh'.ring.items = sh.ring.items ++ fds.map Int.ofNat ∧
      sh'.storage + fds.length = sh.storage := by
  induction fds generalizing t sh with
  | nil => exact ⟨sh, by simp [pure, Except.pure], by simp, rfl⟩
  | cons fd rest ih =>
    simp only [length_cons] at hstorage hroom
    obtain ⟨storage, hst⟩ : ∃ storage, sh.storage = storage + 1 := ⟨sh.storage - 1, by omega⟩
    have hfull : sh.ring.items.length < fdRingCap := by omega
    obtain ⟨ring, henqueue⟩ : ∃ ring, sh.ring.enqueue (fd : Int) = some ring := by
      cases h : sh.ring.enqueue (fd : Int) with
      | some ring => exact ⟨ring, rfl⟩
      | none => exact absurd (Ring.enqueue_eq_none_iff.mp h) (by omega)
    have hitems := (Ring.enqueue_eq_some_iff.mp henqueue).2
    have hfirst : openPlaceholder (t, sh) (Int.ofNat fd) =
        .ok ({ t with fullTrueFd := update t.fullTrueFd fd true }, ⟨ring, storage⟩) := by
      have hne : (fd : Int) ≠ -1 := by omega
      have hslot := slot_natCast (hlt fd (mem_cons_self ..))
      simp [openPlaceholder, hst, hne, hslot, henqueue, pure, Except.pure, bind, Except.bind]
    obtain ⟨sh', hfold, hring', hstorage'⟩ :=
      ih { t with fullTrueFd := update t.fullTrueFd fd true }
        ⟨ring, storage⟩ (fun x hx => hlt x (mem_cons_of_mem _ hx))
        (by simp only; omega)
        (by simp only [hitems, length_append, length_singleton]; omega)
    refine ⟨sh', ?_, ?_, ?_⟩
    · simp only [map_cons, foldlM_cons, hfirst, bind, Except.bind, hfold]
      congr 4
      funext n
      by_cases hn : n = fd
      · subst hn
        simp
      · simp [hn]
    · rw [hring', hitems]
      simp
    · simp only [length_cons] at hstorage' ⊢
      omega

theorem fdMappingInit_eq (fds : List Nat)
    (hlt : ∀ fd ∈ fds, fd < trueFdMaxSize) (hlen : fds.length ≤ trueFdNum) :
    ∃ sh : Shared, fdMappingInit (fds.map Int.ofNat) =
        .ok ({ emptyTables with fullTrueFd := fun n => decide (n ∈ fds) }, sh) ∧
      sh.ring.items = fds.map Int.ofNat ∧
      sh.storage + fds.length = trueFdNum := by
  have hcap : trueFdNum ≤ fdRingCap := by decide
  obtain ⟨sh, hfold, hring, hstorage⟩ :=
    foldlM_openPlaceholder fds emptyTables ⟨.empty, trueFdNum⟩ hlt hlen
      (by simp only [Ring.items_empty, length_nil]; omega)
  refine ⟨sh, ?_, by simpa using hring, hstorage⟩
  rw [fdMappingInit, hfold]
  simp [emptyTables]

def firstFds : List Nat := (List.range trueFdNum).map (· + 3)

theorem length_firstFds : firstFds.length = trueFdNum := by simp [firstFds]

theorem nodup_firstFds : firstFds.Nodup := nodup_range.map fun _ _ => Nat.add_right_cancel

theorem mem_firstFds_iff {fd : Nat} : fd ∈ firstFds ↔ 3 ≤ fd ∧ fd < trueFdNum + 3 := by
  simp only [firstFds, mem_map, mem_range]
  constructor
  · rintro ⟨k, hk, rfl⟩
    omega
  · rintro ⟨hle, hlt⟩
    exact ⟨fd - 3, by omega, by omega⟩

theorem lt_of_mem_firstFds {fd : Nat} (hfd : fd ∈ firstFds) : fd < trueFdMaxSize := by
  have hsize : trueFdNum + 3 ≤ trueFdMaxSize := by decide
  exact Nat.lt_of_lt_of_le (mem_firstFds_iff.mp hfd).2 hsize

end LightStack.Fd
