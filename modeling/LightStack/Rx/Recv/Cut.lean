import LightStack.Rx.Recv.Model

/-!
# Cutting a chain at the requested length

`_light_try_read_exact_amount` takes the length of the first segment before it shortens it.
-/

namespace LightStack.Rx.Recv

open Lib List

def leftover : Option Shadow → List UInt8
  | none => []
  | some sh => payload (getFromShadow sh).segs

def Addable (c : MbufChain) (totalLen : Int) : Prop :=
  totalLen + 2 ^ 16 ≤ 2 ^ 31 ∨ (payload c.segs).length < 2 ^ 31

instance (c : MbufChain) (totalLen : Int) : Decidable (Addable c totalLen) :=
  inferInstanceAs (Decidable (_ ∨ _))

variable {c : MbufChain} {totalLen : Int} {tmp : Mbuf}

theorem Addable.mono {totalLen' : Int} (hadd : Addable c totalLen)
    (hle : totalLen' ≤ totalLen) : Addable c totalLen' := by
  unfold Addable at hadd ⊢
  omega

theorem passSegments_spec (segs : List Mbuf) {currLen : Int}
    (hwf : ∀ m ∈ segs, m.WellFormed) (hcurr : 0 ≤ currLen) (hlt : currLen < totalLen)
    (hadd : totalLen + 2 ^ 16 ≤ 2 ^ 31 ∨ currLen + (payload segs).length < 2 ^ 31) :
    let r := passSegments totalLen currLen segs
    segs = r.2.1 ++ r.2.2 ∧
      r.1 = currLen + (payload r.2.1).length ∧
      r.1 < totalLen ∧
      ∀ tmp rest, r.2.2 = tmp :: rest → totalLen ≤ r.1 + tmp.dataLen := by
  induction segs generalizing currLen with
  | nil => simp [passSegments, hlt]
  | cons m rest ih =>
    have hm : m.WellFormed := hwf m mem_cons_self
    have hlen : (m.data.length : Int) = m.dataLen := by rw [hm.length_data]
    have hrest : totalLen + 2 ^ 16 ≤ 2 ^ 31 ∨
        currLen + m.dataLen + (payload rest).length < 2 ^ 31 := by
      simp only [payload_cons, length_append] at hadd
      omega
    have hbyte := hm.dataLen_lt
    have hsum : toInt32 (m.dataLen + currLen) = currLen + m.dataLen := by
      rw [Int.add_comm]
      exact toInt32_of_lt (by omega) (by omega)
    have hsum' : toInt32 (currLen + m.dataLen) = currLen + m.dataLen :=
      toInt32_of_lt (by omega) (by omega)
    simp only [passSegments, hsum, hsum']
    split
    · rename_i hmore
      obtain ⟨hsplit, hcount, hbelow, hstop⟩ :=
        ih (fun x hx => hwf x (mem_cons_of_mem _ hx)) (by omega) hmore hrest
      refine ⟨congrArg (m :: ·) hsplit, ?_, hbelow, hstop⟩
      simp only [payload_cons, length_append]
      omega
    · rename_i hreach
      refine ⟨rfl, by simp, hlt, ?_⟩
      intro tmp rest' heq
      cases heq
      omega

structure ReadsAmount (c : MbufChain) (totalLen : Int) (r : ExactAmount) :
    Prop where
  split : payload r.chain.segs ++ leftover r.shadow = payload c.segs
  length : ((payload r.chain.segs).length : Int) = r.totalLen
  pos : 0 < r.totalLen
  le : r.totalLen ≤ totalLen
  filled : r.shadow ≠ none → r.totalLen = totalLen
  shadowOk : ∀ sh, r.shadow = some sh → (getFromShadow sh).WellFormed
  copied : (copyChain r.firstSegmentLen r.chain).take r.totalLen.toNat = payload r.chain.segs
  exact : (c.head.dataLen : Int) ≤ totalLen →
    copyChain r.firstSegmentLen r.chain = payload r.chain.segs

theorem copyChain_head (c : MbufChain) : copyChain c.head.dataLen c = payload c.segs := by
  simp [copyChain, MbufChain.segs, Mbuf.data]

theorem readsAmount_whole (hc : c.WellFormed) (hlt : ((payload c.segs).length : Int) < totalLen) :
    ReadsAmount c totalLen
      { chain := c, shadow := none, totalLen := (payload c.segs).length,
        firstSegmentLen := c.head.dataLen } := by
  have hhead : c.head.WellFormed := hc c.head mem_cons_self
  have hpos : 0 < (payload c.segs).length := by
    have := hhead.pos
    simp only [MbufChain.segs, payload_cons, length_append, hhead.length_data]
    omega
  exact {
    split := append_nil _
    length := rfl
    pos := by simpa using hpos
    le := Int.le_of_lt hlt
    filled := fun h => absurd rfl h
    shadowOk := fun sh hsh => by cases hsh
    copied := by simp [copyChain_head]
    exact := fun _ => copyChain_head c }

theorem shadow_parts (htmp : tmp.WellFormed) (next : List Mbuf) {d : Nat} (hd : d < tmp.dataLen) :
    let sh : Shadow := ⟨{ tmp with dataLen := d }, next, tmp.dataLen - d, d⟩
    (getFromShadow sh).head.WellFormed ∧
      ({ tmp with dataLen := d } : Mbuf).data ++ (getFromShadow sh).head.data = tmp.data := by
  intro sh
  have hsmall := htmp.small
  have hwithin := htmp.within
  have hlen : (getFromShadow sh).head.dataLen = tmp.dataLen - d := by
    have := toUInt16_of_lt (x := tmp.dataLen - d) (by omega) (by omega)
    show toUInt16 (tmp.dataLen - d) = tmp.dataLen - d
    omega
  have hoff : (getFromShadow sh).head.dataOff = tmp.dataOff + d := by
    have := toUInt16_of_lt (x := tmp.dataOff + d) (by omega) (by omega)
    show toUInt16 (tmp.dataOff + d) = tmp.dataOff + d
    omega
  constructor
  · refine ⟨by omega, ?_, hsmall⟩
    show (getFromShadow sh).head.dataOff + (getFromShadow sh).head.dataLen ≤ tmp.buf.length
    omega
  · have hread := Mbuf.read_append_read tmp (getFromShadow sh).head d (tmp.dataLen - d) rfl hoff
    have hsum : d + (tmp.dataLen - d) = tmp.dataLen := by omega
    rw [hsum, ← hlen] at hread
    exact hread

theorem readsAmount_inside {passed next : List Mbuf} {d : Nat} (hc : c.WellFormed)
    (hsplit : c.segs = passed ++ tmp :: next) (hpos : 0 < d) (hd : d < tmp.dataLen) :
    ReadsAmount c ((payload passed).length + d)
      { chain := .ofLast passed { tmp with dataLen := d }
        shadow := some ⟨{ tmp with dataLen := d }, next, tmp.dataLen - d, d⟩
        totalLen := (payload passed).length + d
        firstSegmentLen := c.head.dataLen } := by
  have htmp : tmp.WellFormed := hc tmp (by simp [hsplit])
  have hnext : ∀ m ∈ next, m.WellFormed := fun m hm => hc m (by simp [hsplit, hm])
  obtain ⟨hrest, hparts⟩ := shadow_parts htmp next hd
  have hwhole : payload c.segs = payload passed ++ (tmp.data ++ payload next) := by simp [hsplit]
  have hchain : payload (MbufChain.ofLast passed { tmp with dataLen := d }).segs
      = payload passed ++ ({ tmp with dataLen := d } : Mbuf).data := by
    simp
  have hfirst : ({ tmp with dataLen := d } : Mbuf).data.length = d :=
    htmp.length_read (Nat.le_of_lt hd)
  have hcopied : passed ≠ [] → copyChain c.head.dataLen (.ofLast passed { tmp with dataLen := d }) =
        payload (MbufChain.ofLast passed { tmp with dataLen := d }).segs := by
    intro hne
    cases passed with
    | nil => exact absurd rfl hne
    | cons m ms =>
      have hhead : c.head = m := by
        have := congrArg List.head? hsplit
        simpa [MbufChain.segs] using this
      rw [hhead]
      exact copyChain_head (.ofLast (m :: ms) { tmp with dataLen := d })
  exact {
    split := by
      rw [hchain, hwhole, ← hparts, append_assoc, append_assoc]
      rfl
    length := by simp only [hchain, length_append, hfirst]; omega
    pos := by
      show (0 : Int) < (payload passed).length + d
      omega
    le := Int.le_refl _
    filled := fun _ => rfl
    shadowOk := by
      intro sh hsh
      cases hsh
      intro m hm
      rcases mem_cons.mp hm with rfl | hm
      · exact hrest
      · exact hnext m hm
    copied := by
      have htotal : ((payload passed).length + d : Int).toNat =
          (payload passed).length + d := by omega
      show (copyChain _ _).take ((payload passed).length + d : Int).toNat = _
      rw [htotal]
      rcases eq_nil_or_concat passed with rfl | ⟨_, _, hne⟩
      · have hhead : c.head = tmp := by
          have := congrArg List.head? hsplit
          simpa [MbufChain.segs] using this
        have hmin : min d tmp.dataLen = d := by omega
        simp [hhead, copyChain, MbufChain.ofLast, MbufChain.segs, Mbuf.data,
          Mbuf.read, take_take, hmin]
      · rw [hcopied (by simp [hne])]
        exact take_of_length_le (by simp only [hchain, length_append, hfirst]; omega)
    exact := by
      intro hfits
      rcases eq_nil_or_concat passed with rfl | ⟨_, _, hne⟩
      · have hhead : c.head = tmp := by
          have := congrArg List.head? hsplit
          simpa [MbufChain.segs] using this
        rw [hhead] at hfits
        simp only [payload_nil, length_nil] at hfits
        omega
      · exact hcopied (by simp [hne]) }

theorem keepBehind_spec (next : List Mbuf) (hnext : ∀ m ∈ next, m.WellFormed) :
    leftover (keepBehind none next) = payload next ∧
      ∀ sh, keepBehind none next = some sh → (getFromShadow sh).WellFormed := by
  cases next with
  | nil => exact ⟨rfl, fun sh hsh => by cases hsh⟩
  | cons m rest =>
    have hm : m.WellFormed := hnext m mem_cons_self
    obtain ⟨hwf, hdata⟩ := shadow_parts hm rest hm.pos
    have hsame : getFromShadow ⟨m, rest, m.dataLen, 0⟩ =
        getFromShadow ⟨{ m with dataLen := 0 }, rest, m.dataLen - (0 : Nat), (0 : Nat)⟩ := by
      simp [getFromShadow]
    have hempty : ({ m with dataLen := 0 } : Mbuf).data = [] := by simp [Mbuf.data, Mbuf.read]
    rw [hempty, nil_append] at hdata
    constructor
    · show payload (getFromShadow ⟨m, rest, m.dataLen, 0⟩).segs = _
      rw [hsame, MbufChain.segs, payload_cons, hdata, payload_cons]
      rfl
    · intro sh hsh
      cases hsh
      rw [hsame]
      intro x hx
      rcases mem_cons.mp hx with rfl | hx
      · exact hwf
      · exact hnext x (mem_cons_of_mem _ hx)

theorem readsAmount_boundary {passed next : List Mbuf} (hc : c.WellFormed)
    (hsplit : c.segs = passed ++ tmp :: next) :
    ReadsAmount c ((payload passed).length + tmp.dataLen)
      { chain := .ofLast passed tmp
        shadow := keepBehind none next
        totalLen := (payload passed).length + tmp.dataLen
        firstSegmentLen := c.head.dataLen } := by
  have htmp : tmp.WellFormed := hc tmp (by simp [hsplit])
  have hpos := htmp.pos
  obtain ⟨hbehind, hbehindWf⟩ := keepBehind_spec next (fun m hm => hc m (by simp [hsplit, hm]))
  have hhead : c.head = (MbufChain.ofLast passed tmp).head := by
    have := congrArg List.head? hsplit
    cases passed <;> simpa [MbufChain.segs, MbufChain.ofLast] using this
  have hcopied : copyChain c.head.dataLen (.ofLast passed tmp) =
      payload (MbufChain.ofLast passed tmp).segs := by
    rw [hhead]
    exact copyChain_head _
  have hlen : (payload (MbufChain.ofLast passed tmp).segs).length =
      (payload passed).length + tmp.dataLen := by
    simp [htmp.length_data]
  have hwhole : payload (MbufChain.ofLast passed tmp).segs ++
      leftover (keepBehind none next) = payload c.segs := by
    rw [hbehind, hsplit]
    simp
  exact {
    split := hwhole
    length := by rw [hlen]; rfl
    pos := by
      show (0 : Int) < (payload passed).length + tmp.dataLen
      omega
    le := Int.le_refl _
    filled := fun _ => rfl
    shadowOk := hbehindWf
    copied := by
      show (copyChain _ _).take _ = _
      rw [hcopied]
      apply take_of_length_le
      show _ ≤ ((payload passed).length + tmp.dataLen : Int).toNat
      omega
    exact := fun _ => hcopied }

theorem cutAtPrev_of_lt {currLen : Int} (hlt : currLen < totalLen) (passed : List Mbuf)
    (chain : MbufChain) : cutAtPrev currLen totalLen passed chain = chain := by
  cases passed with
  | nil => rfl
  | cons m ms => exact if_neg (Int.ne_of_lt hlt)

theorem tryReadExactAmount_spec (hc : c.WellFormed) (hpos : 0 < totalLen)
    (hadd : Addable c totalLen) : ReadsAmount c totalLen (tryReadExactAmount c none totalLen) := by
  obtain ⟨hsplit, hcount, hlt, hstop⟩ :=
    passSegments_spec c.segs hc (Int.le_refl 0) hpos (by unfold Addable at hadd; omega)
  generalize hr : passSegments totalLen 0 c.segs = r at hsplit hcount hlt hstop
  obtain ⟨currLen, passed, behind⟩ := r
  simp only [Int.zero_add] at hcount hsplit hlt hstop
  cases behind with
  | nil =>
    have hall : passed = c.segs := by rw [hsplit, append_nil]
    have hres : tryReadExactAmount c none totalLen =
        { chain := c, shadow := none, totalLen := (payload c.segs).length,
          firstSegmentLen := c.head.dataLen } := by
      simp only [tryReadExactAmount, hr, hcount, hall]
    rw [hres]
    exact readsAmount_whole hc (by rw [← hall, ← hcount]; exact hlt)
  | cons tmp next =>
    have htmp : tmp.WellFormed := hc tmp (by simp [hsplit])
    have hbyte := htmp.dataLen_lt
    have hreach : totalLen ≤ currLen + tmp.dataLen := hstop tmp next rfl
    have hbytes : currLen + tmp.dataLen < 2 ^ 31 := by
      rcases hadd with hadd | hadd
      · omega
      · rw [hsplit] at hadd
        simp only [payload_append, payload_cons, length_append, htmp.length_data] at hadd
        omega
    have hsum : toInt32 (currLen + tmp.dataLen) = currLen + tmp.dataLen :=
      toInt32_of_lt (by omega) hbytes
    by_cases hinside : totalLen < currLen + tmp.dataLen
    · obtain ⟨d, hd⟩ : ∃ d : Nat, totalLen = (payload passed).length + d :=
        ⟨(totalLen - currLen).toNat, by omega⟩
      have hrem : toInt32 (currLen + tmp.dataLen - totalLen) = tmp.dataLen - d := by
        rw [toInt32_of_lt (by omega) (by omega)]
        omega
      have hdel : toInt32 (tmp.dataLen - (tmp.dataLen - d : Int)) = d := by
        rw [toInt32_of_lt (by omega) (by omega)]
        omega
      have hfield : toUInt16 (d : Int) = d := by
        have := toUInt16_of_lt (x := d) (by omega) (by omega)
        omega
      have hres : tryReadExactAmount c none totalLen =
          { chain := .ofLast passed { tmp with dataLen := d }
            shadow := some ⟨{ tmp with dataLen := d }, next, tmp.dataLen - d, d⟩
            totalLen := totalLen
            firstSegmentLen := c.head.dataLen } := by
        simp only [tryReadExactAmount, hr, hsum, if_pos hinside, hrem, hdel,
          hfield, cutAtPrev_of_lt hlt]
      rw [hres, hd]
      exact readsAmount_inside hc hsplit (by omega) (by omega)
    · have htotal : totalLen = (payload passed).length + tmp.dataLen := by omega
      have hres : tryReadExactAmount c none totalLen =
          { chain := .ofLast passed tmp
            shadow := keepBehind none next
            totalLen := totalLen
            firstSegmentLen := c.head.dataLen } := by
        simp only [tryReadExactAmount, hr, hsum, if_neg hinside, cutAtPrev_of_lt hlt]
      rw [hres, htotal]
      exact readsAmount_boundary hc hsplit

end LightStack.Rx.Recv
