import LightStack.Rx.Recv.Alone

/-!
# The number of bytes that can be read
-/

namespace LightStack.Rx.Recv

open Lib List

variable {cap : Nat} {s : Sock cap}

def fionread (rings : List (Ring RxChain cap)) : Int := toInt32 ((rings.map Ring.count).sum : Nat)

def lastRet (s : Sock cap) : Int := (s.calls.getLast?.map Call.ret).getD 0

def readUntilBlocks : List Nat → Sock cap → Option Int
  | [], _ => none
  | n :: rest, s =>
    match recvNow s ⟨n, true⟩ with
    | none => none
    | some s => if lastRet s ≤ 0 then some 0 else (readUntilBlocks rest s).map (lastRet s + ·)

def ReportsReadable (s : Sock cap) (v : Int) : Prop :=
  v = (available s).length ∧
    ∀ sizes : List Nat, (∀ n ∈ sizes, 1 ≤ n ∧ n < 2 ^ 31) → (available s).length < sizes.length →
      readUntilBlocks sizes s = some v

theorem readUntilBlocks_eq (hs : Ready s) (hsmall : (available s).length < 2 ^ 31)
    {sizes : List Nat} (hsizes : ∀ n ∈ sizes, 1 ≤ n ∧ n < 2 ^ 31)
    (hmany : (available s).length < sizes.length) :
    readUntilBlocks sizes s = some ((available s).length : Int) := by
  induction sizes generalizing s with
  | nil => exact absurd hmany (Nat.not_lt_zero _)
  | cons n rest ih =>
    obtain ⟨hn, hrest⟩ := forall_mem_cons.mp hsizes
    rw [readUntilBlocks]
    by_cases hdata : available s = []
    · rw [recvNow_of_empty hs hdata]
      simp [finishEmpty, lastRet, hdata]
      split <;> simp
    · have hpos : 0 < (⟨n, true⟩ : Request).tempBytes := Request.InRange.tempBytes_pos hn
      obtain ⟨r, ring, bytes, hcall, hr, hbytes, hsuffix⟩ :=
        recvNow_of_available False ⟨n, true⟩ hs hdata hsmall False.elim False.elim
          (fun hall => absurd hpos (by omega))
      have hlast : lastRet (finishData { s with rxRing := ring } ⟨n, true⟩ r) = r.totalLen := by
        simp [lastRet, finishData]
      have hlength : ((available s).length : Int) = r.totalLen +
          (available (finishData { s with rxRing := ring } ⟨n, true⟩ r)).length := by
        rw [← hbytes, ← hr.split, ← hr.length]
        simp [available, finishData]
      have hpos := hr.pos
      rw [hcall]
      dsimp only
      rw [hlast, if_neg (by omega), ih (hs.finishData hr hsuffix) (by omega) hrest (by
        rw [length_cons] at hmany
        omega)]
      simp [hlength]

theorem reportsReadable_iff (hs : Ready s) {rings : List (Ring RxChain cap)}
    (hcount : (rings.map Ring.count).sum < 2 ^ 31) :
    ReportsReadable s (fionread rings) ↔ (available s).length = (rings.map Ring.count).sum := by
  have hint : fionread rings = ((rings.map Ring.count).sum : Nat) :=
    toInt32_of_lt (Int.natCast_nonneg _) (by omega)
  rw [ReportsReadable, hint]
  constructor
  · rintro ⟨hlength, -⟩
    omega
  · intro hlength
    refine ⟨by omega, fun sizes hsizes hmany => ?_⟩
    rw [readUntilBlocks_eq hs (by omega) hsizes hmany, hlength]

theorem length_payloads (items : List RxChain) :
    items.length ≤ (items.flatMap fun c => payload c.segs).length ∧
      ((items.flatMap fun c => payload c.segs).length = items.length ↔
        ∀ c ∈ items, (payload c.segs).length = 1) := by
  induction items with
  | nil => simp
  | cons c items ih =>
    obtain ⟨hle, hiff⟩ := ih
    have hpos := length_payload_pos c.wellFormed
    rw [flatMap_cons, length_append, length_cons, forall_mem_cons, ← hiff]
    omega

/-- `FIONREAD` is right exactly if there are as many bytes as chains; with one ring, if nothing is
left over and every chain has a single byte. -/
theorem fionread_reports_readable (s : Sock cap) (others : List (Ring RxChain cap)) (hs : Ready s)
    (hcount : ((s.rxRing :: others).map Ring.count).sum < 2 ^ 31) :
    (ReportsReadable s (fionread (s.rxRing :: others)) ↔
        (leftover s.shadow).length + (ringBytes s.rxRing).length =
          s.rxRing.count + (others.map Ring.count).sum) ∧
      (ReportsReadable s (fionread [s.rxRing]) ↔
        s.shadow = none ∧ ∀ c ∈ s.rxRing.items, (payload c.segs).length = 1) := by
  rw [map_cons, sum_cons] at hcount
  constructor
  · rw [reportsReadable_iff hs (by simpa using hcount), available, length_append,
      map_cons, sum_cons]
  · rw [reportsReadable_iff hs (by simp; omega), available, length_append]
    obtain ⟨hle, hone⟩ := length_payloads s.rxRing.items
    have hshadow : s.shadow = none ↔ (leftover s.shadow).length = 0 := by
      refine ⟨fun hnone => by simp [hnone, leftover], fun hzero => ?_⟩
      exact hs.shadow_eq_none (length_eq_zero_iff.mp hzero)
    rw [hshadow, ← hone]
    simp only [map_cons, map_nil, sum_cons, sum_nil, Ring.count, ringBytes]
    omega

def chain (bytes : List UInt8) (hbytes : (⟨filledMbuf bytes, []⟩ : MbufChain).WellFormed) :
    RxChain :=
  ⟨⟨filledMbuf bytes, []⟩, hbytes⟩

def received (chains : List RxChain) (hchains : chains.length ≤ 7) : Sock 7 :=
  { (Sock.fresh : Sock 7) with rxRing := ⟨chains, hchains⟩ }

def threeBytes : Sock 7 :=
  received [chain [4] (by decide), chain [5] (by decide), chain [6] (by decide)] (by decide)

theorem fionread_reports_three_bytes :
    fionread [threeBytes.rxRing] = 3 ∧ ReportsReadable threeBytes (fionread [threeBytes.rxRing]) :=
  ⟨by decide, (fionread_reports_readable threeBytes [] ⟨rfl, nofun, by decide⟩
    (by decide)).2.mpr ⟨rfl, by decide⟩⟩

def twoInOne : Sock 7 := received [chain [4, 5] (by decide)] (by decide)

theorem fionread_counts_chains : fionread [twoInOne.rxRing] = 1 ∧
      readUntilBlocks [10, 10, 10] twoInOne = some 2 ∧
      ¬ ReportsReadable twoInOne (fionread [twoInOne.rxRing]) := by
  refine ⟨by decide, by decide +kernel, fun hreports => ?_⟩
  exact absurd hreports.1 (by decide)

end LightStack.Rx.Recv
