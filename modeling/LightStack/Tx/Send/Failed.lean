import LightStack.Tx.Send.Call

/-!
# A send whose enqueue fails

The loop that releases buffers runs up to the room there was, over an array of `buf_count` entries.
-/

namespace LightStack.Tx.Send.Call

open Lib List

structure Ended where
  conn : Conn
  released : List (Option Nat)
  kicks : Nat

def endSend (bulk : Conn → List Desc → Option Conn) (c : Conn) (space : Int) (data : List UInt8)
    (stale : Nat → Buffer) : Option Ended :=
  let count := bufCount data.length space
  match getBuffersBulk c.pool count with
  | none => none
  | some (mbufs, pool) =>
    match bulk { c with pool := pool } (describe mbufs (fillBuffers count.toNat data) stale) with
    | some c => some ⟨c, [], 1⟩
    | none => some ⟨{ c with pool := pool }, (List.range space.toNat).map fun i => mbufs[i]?, 0⟩

def lightSendtoBulk (c : Conn) (descs : List Desc) : Option Conn := lightSendBulk c descs

def lightSendEnd := endSend lightSendBulk

def lightSendtoEnd := endSend lightSendtoBulk

def packets (nbytes : Nat) : Int :=
  toInt32 (nbytes / payloadMax : Nat) + if 0 < nbytes % payloadMax then 1 else 0

theorem bufCount_eq_min (nbytes : Nat) (space : Int) :
    bufCount nbytes space = min (packets nbytes) space := by
  rw [bufCount, packets]
  split <;> simp

def GivesBack (c : Conn) (taken : List Nat) (e : Option Ended) : Prop :=
  ∃ c', e = some ⟨c', taken.map some, 0⟩ ∧ c'.txSpace = c.txSpace ∧ c'.txRing = c.txRing

theorem range_map_getElem?_iff (l : List Nat) (n : Nat) :
    ((List.range n).map fun i => l[i]?) = l.map some ↔ n = l.length := by
  constructor
  · intro heq
    simpa using congrArg List.length heq
  · rintro rfl
    apply ext_getElem
    · simp
    · intro i hi _
      simp only [length_map, length_range] at hi
      simp [hi]

/-- A call that cannot enqueue its buffers gives back what it took exactly if there was room for no
more packets than its bytes need. -/
theorem failed_send_gives_back (c : Conn) (space : Int) (data : List UInt8) (stale : Nat → Buffer)
    (taken pool : List Nat)
    (hget : getBuffersBulk c.pool (bufCount data.length space) = some (taken, pool))
    (hfull : c.txRing.freeCount < taken.length) :
    (GivesBack c taken (lightSendEnd c space data stale) ↔ space ≤ packets data.length) ∧
      (GivesBack c taken (lightSendtoEnd c space data stale) ↔ space ≤ packets data.length) := by
  have hcount : (taken.length : Int) = min (packets data.length) space := by
    rw [getBuffersBulk] at hget
    obtain ⟨⟨hnonneg, hpool⟩, hpair⟩ := Option.ite_none_right_eq_some.mp hget
    obtain ⟨rfl, -⟩ := Prod.mk.inj (Option.some.inj hpair)
    rw [length_take_of_le hpool, Int.toNat_of_nonneg hnonneg, bufCount_eq_min]
  have hbulk : ∀ descs : List Desc, descs.length = taken.length →
      lightSendBulk { c with pool := pool } descs = none := by
    intro descs hlength
    rw [lightSendBulk, Ring.enqueueBulk, dif_neg, Option.map_none]
    rw [Ring.freeCount, Ring.count] at hfull
    dsimp only
    omega
  have hdescs : (describe taken (fillBuffers (bufCount data.length space).toNat data)
      stale).length = taken.length := by
    simp [describe]
  have hlength : space.toNat = taken.length ↔ space ≤ packets data.length := by omega
  have hcall : GivesBack c taken (lightSendEnd c space data stale) ↔
      space ≤ packets data.length := by
    rw [GivesBack, lightSendEnd, endSend, hget]
    dsimp only
    rw [hbulk _ hdescs, ← hlength, ← range_map_getElem?_iff]
    simp
  exact ⟨hcall, hcall⟩

def fullConn : Conn where
  txRing := ⟨List.replicate 1023 ⟨0, ⟨[]⟩⟩, (length_replicate).le⟩
  pool := [5, 6, 7]
  txSpace := 4344
  closeSignal := 2
  writeDone := false
  kickRc := 0

theorem failed_send_gives_back_one :
    GivesBack fullConn [5] (lightSendEnd fullConn 1 [0] fun _ => ⟨[]⟩) :=
  (failed_send_gives_back fullConn 1 [0] (fun _ => ⟨[]⟩) [5] [6, 7] (by decide)
    (by rw [Ring.freeCount, Ring.count, fullConn, length_replicate]; decide)).1.mpr
    (by decide)

theorem failed_send_releases_behind_array :
    (lightSendEnd fullConn 3 [0] fun _ => ⟨[]⟩).map Ended.released = some [some 5, none, none] ∧
      ¬ GivesBack fullConn [5] (lightSendEnd fullConn 3 [0] fun _ => ⟨[]⟩) := by
  have hreleased : (lightSendEnd fullConn 3 [0] fun _ => ⟨[]⟩).map Ended.released =
      some [some 5, none, none] := by
    decide +kernel
  refine ⟨hreleased, ?_⟩
  rintro ⟨c', hcall, -⟩
  simp [hcall] at hreleased

end LightStack.Tx.Send.Call
