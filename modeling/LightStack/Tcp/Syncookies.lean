import Mathlib.Data.List.Basic

/-!
# SYN cookies

A listener whose queue is full keeps nothing of a connection request: the sequence number of its
answer carries the minute and the MSS, and comes back with the ACK.  The hash with the two
secrets of the process is a parameter.
-/

namespace LightStack.Tcp

structure Flow where
  saddr : UInt32
  daddr : UInt32
  source : UInt16
  dest : UInt16

def msstab : List UInt16 := [536, 1300, 1440, 1460]

/-- The loop over `msstab` from its end. -/
def mssIndex (mss : UInt16) : Nat → Nat
  | 0 => 0
  | mssind + 1 => if msstab.getD (mssind + 1) 0 ≤ mss then mssind + 1 else mssIndex mss mssind

variable (cookieHash : Flow → UInt32 → Bool → UInt32)

/-- `count` is `tcp_cookie_time()`, the time in minutes. -/
def secureTcpSynCookie (count : UInt32) (f : Flow) (sseq data : UInt32) : UInt32 :=
  cookieHash f 0 false + sseq + (count <<< 24) + ((cookieHash f count true + data) &&& 0xffffff)

def checkTcpSynCookie (count cookie : UInt32) (f : Flow) (sseq : UInt32) : UInt32 :=
  let cookie := cookie - (cookieHash f 0 false + sseq)
  let diff := (count - (cookie >>> 24)) &&& ((0xffffffff : UInt32) >>> 24)
  if 2 ≤ diff then 0xffffffff
  else (cookie - cookieHash f (count - diff) true) &&& 0xffffff

/-- The cookie, and the MSS it stands for. -/
def cookieV4InitSequence (count : UInt32) (f : Flow) (seq : UInt32) (mss : UInt16) :
    UInt32 × UInt16 :=
  let mssind := mssIndex mss 3
  (secureTcpSynCookie cookieHash count f seq mssind.toUInt32, msstab.getD mssind 0)

def cookieV4Check (count : UInt32) (f : Flow) (seq cookie : UInt32) : UInt16 :=
  msstab.getD (checkTcpSynCookie cookieHash count cookie f (seq - 1)).toNat 0

theorem toNat_low (x : UInt32) : (x &&& 0xffffff).toNat = x.toNat % 16777216 := by
  rw [UInt32.toNat_and]
  exact Nat.and_two_pow_sub_one_eq_mod x.toNat 24

theorem toNat_byte (x : UInt32) : (x &&& (0xffffffff : UInt32) >>> 24).toNat = x.toNat % 256 := by
  rw [UInt32.toNat_and]
  exact Nat.and_two_pow_sub_one_eq_mod x.toNat 8

theorem toNat_top (x : UInt32) : (x >>> 24).toNat = x.toNat / 16777216 := by
  rw [UInt32.toNat_shiftRight]
  exact Nat.shiftRight_eq_div_pow x.toNat 24

/-- The layers of a cookie without its first hash. -/
theorem cookie_iff {c count h d : UInt32} (hd : d.toNat < 16777216) :
    c = (count <<< 24) + ((h + d) &&& 0xffffff) ↔
      (c >>> 24).toNat = count.toNat % 256 ∧ (c - h) &&& 0xffffff = d := by
  have hup : (count <<< 24).toNat = count.toNat * 16777216 % 4294967296 := by
    rw [UInt32.toNat_shiftLeft]
    simp [Nat.shiftLeft_eq]
  have hc := c.toNat_lt
  have hh := h.toNat_lt
  simp only [← UInt32.toNat_inj, toNat_low, toNat_top, UInt32.toNat_add, UInt32.toNat_sub, hup]
  omega

theorem age_iff {count c issued : UInt32} :
    count - issued < 2 ∧ (c >>> 24).toNat = issued.toNat % 256 ↔
      (count - (c >>> 24)) &&& ((0xffffffff : UInt32) >>> 24) < 2 ∧
        issued = count - ((count - (c >>> 24)) &&& ((0xffffffff : UInt32) >>> 24)) := by
  have hc := c.toNat_lt
  have hcount := count.toNat_lt
  have hissued := issued.toNat_lt
  simp only [← UInt32.toNat_inj, UInt32.lt_iff_toNat_lt, toNat_top, toNat_byte, UInt32.toNat_sub,
    UInt32.reduceToNat]
  omega

theorem check_eq_iff {count cookie sseq d : UInt32} {f : Flow} (hd : d.toNat < 4) :
    checkTcpSynCookie cookieHash count cookie f sseq = d ↔
      ∃ issued, count - issued < 2 ∧ cookie = secureTcpSynCookie cookieHash issued f sseq d := by
  have hbase : ∀ k x, cookie = cookieHash f 0 false + sseq + k + x ↔
      cookie - (cookieHash f 0 false + sseq) = k + x := by grind
  simp only [secureTcpSynCookie, hbase, checkTcpSynCookie]
  generalize cookie - (cookieHash f 0 false + sseq) = c
  simp only [cookie_iff (show d.toNat < 16777216 by omega), ← and_assoc, age_iff]
  generalize (count - (c >>> 24)) &&& ((0xffffffff : UInt32) >>> 24) = diff
  by_cases hold : 2 ≤ diff
  · rw [if_pos hold]
    refine ⟨fun h => absurd hd (h ▸ by decide), ?_⟩
    rintro ⟨issued, ⟨hlt, -⟩, -⟩
    exact absurd hlt (UInt32.not_lt.mpr hold)
  · simp [hold, UInt32.not_le.mp hold]

theorem mssIndex_le (mss : UInt16) (n : Nat) : mssIndex mss n ≤ n := by
  fun_induction mssIndex mss n with
  | case1 => exact Nat.le_refl 0
  | case2 => exact Nat.le_refl _
  | case3 n _ ih => exact Nat.le_succ_of_le ih

theorem mssIndex_getElem {i : Nat} (hi : i < 4) : mssIndex (msstab.getD i 0) 3 = i := by
  decide +revert

/-- Of the sequence numbers that an ACK can carry, the eight are accepted that the process answers
to a SYN in this minute or has answered in the one before, with the same MSS. -/
theorem cookie_accepted_iff_issued (count : UInt32) (f : Flow) (seq cookie : UInt32) (mss : UInt16)
    (hmss : mss ≠ 0) :
    cookieV4Check cookieHash count f seq cookie = mss ↔ ∃ issued asked, count - issued < 2 ∧
      cookieV4InitSequence cookieHash issued f (seq - 1) asked = (cookie, mss) := by
  have hlength : msstab.length = 4 := rfl
  simp only [cookieV4Check, cookieV4InitSequence, Prod.mk.injEq]
  constructor
  · rintro rfl
    generalize hd : checkTcpSynCookie cookieHash count cookie f (seq - 1) = d at hmss ⊢
    have hlt : d.toNat < 4 := by
      by_contra hge
      rw [List.getD_eq_getElem?_getD, List.getElem?_eq_none (by omega)] at hmss
      exact hmss rfl
    obtain ⟨issued, hage, hcookie⟩ := (check_eq_iff cookieHash hlt).mp hd
    refine ⟨issued, msstab.getD d.toNat 0, hage, ?_⟩
    rw [mssIndex_getElem hlt]
    exact ⟨by simpa using hcookie.symm, rfl⟩
  · rintro ⟨issued, asked, hage, hcookie, hmss⟩
    have hindex := mssIndex_le asked 3
    have hdata : (mssIndex asked 3).toUInt32.toNat = mssIndex asked 3 :=
      Nat.mod_eq_of_lt (show mssIndex asked 3 < 2 ^ 32 by omega)
    rw [(check_eq_iff cookieHash (by omega)).mpr ⟨issued, hage, hcookie.symm⟩, hdata, hmss]

theorem cookie_of_last_minute_accepted :
    cookieV4Check (fun _ _ _ => 5) 1 ⟨1, 2, 3, 4⟩ 8 19 = 1440 :=
  (cookie_accepted_iff_issued _ 1 ⟨1, 2, 3, 4⟩ 8 19 1440 (by decide)).mpr
    ⟨0, 1450, by decide, by decide⟩

end LightStack.Tcp
