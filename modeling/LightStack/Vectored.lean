import LightStack.Rx.Recv.Alone
import LightStack.Tx.Send.Call

/-!
# `light_readv` and `light_writev`

Both make a call for one entry after the other and stop at the first that does less than its entry.
-/

namespace LightStack.Vectored

open Lib List

structure Ended (ρ σ : Type) where
  ret : Option Int
  retlen : Int
  made : List ρ
  state : σ

/-- `retlen` is an `int`, and so is what a call returns. -/
def vectored {ε ρ σ : Type} (len : ε → Nat) (ret : ρ → Int) (call : σ → ε → Option (ρ × σ)) :
    List ε → Int → σ → Ended ρ σ
  | [], retlen, s => ⟨some retlen, retlen, [], s⟩
  | e :: rest, retlen, s =>
    match call s e with
    | none => ⟨none, retlen, [], s⟩
    | some (r, s) =>
      if ret r ≤ 0 then ⟨some (if 0 < retlen then retlen else ret r), retlen, [r], s⟩
      else
        let retlen := toInt32 (retlen + ret r)
        if ret r < len e then ⟨some retlen, retlen, [r], s⟩
        else
          let ended := vectored len ret call rest retlen s
          { ended with made := r :: ended.made }

/-! ## `light_readv` -/

open Rx.Recv

variable {cap : Nat} {s t : Sock cap} {n : Nat} {nonblock : Bool}

def recvEntry (nonblock : Bool) (s : Sock cap) (n : Nat) : Option ((Nat × Call) × Sock cap) :=
  (recvNow s ⟨n % 2 ^ 32, nonblock⟩).bind fun s => s.calls.getLast?.map fun c => ((n, c), s)

def lightReadv (nonblock : Bool) (lens : List Nat) (retlen : Int) (s : Sock cap) :
    Ended (Nat × Call) (Sock cap) :=
  vectored (fun n => n) (fun x => x.2.ret) (recvEntry nonblock) lens retlen s

def Fits (s : Sock cap) (n : Nat) : Prop :=
  (0 < toInt32 n ∧ (firstLen s : Int) ≤ toInt32 n) ∨
    (toInt32 n ≤ 0 ∧ n ≠ 0 ∧ ∀ sh ∈ s.shadow,
      toInt32 (getFromShadow sh).head.pktLen = ((leftover s.shadow).length : Int))

def GoodCall (s t : Sock cap) (n : Nat) (c : Call) : Prop :=
  0 < c.ret ∧ (c.written.length : Int) = c.ret ∧ c.ret ≤ n ∧ c.written ++ available t = available s

def BadCall (s t : Sock cap) (n : Nat) (c : Call) : Prop :=
  n < c.written.length ∨ ((c.ret ≤ 0 ∨ c.ret < n) ∧ c.ret < 2 ^ 31 ∧
    ¬ ((c.written.length : Int) = max c.ret 0 ∧ c.written ++ available t = available s))

theorem toInt32_mod (n : Nat) : toInt32 ((n % 2 ^ 32 : Nat) : Int) = toInt32 n := by
  rw [toInt32, toInt32, Int.natCast_mod]
  exact Int.emod_bmod _ _

theorem toInt32_eq_of_pos (hpos : 0 < toInt32 n) : toInt32 n = ((n % 2 ^ 32 : Nat) : Int) := by
  rw [toInt32, Int.bmod_def] at hpos ⊢
  split at hpos <;> split <;> omega

theorem toInt32_eq_iff {x : Int} {y : Nat} (hy : y < 2 ^ 31) : toInt32 x = y ↔ x % 2 ^ 32 = y := by
  rw [toInt32, Int.bmod_def]
  split <;> omega

theorem tryReadExactAmount_short {c : MbufChain} {total : Int} (sh : Option Shadow)
    (hc : c.WellFormed) (hlong : total < c.head.dataLen) :
    (tryReadExactAmount c sh total).totalLen = total ∧
      (copyChain (tryReadExactAmount c sh total).firstSegmentLen
        (tryReadExactAmount c sh total).chain).length = c.head.dataLen := by
  have hhead : c.head.WellFormed := hc c.head mem_cons_self
  have hsmall := hhead.dataLen_lt
  have hint : toInt32 c.head.dataLen = c.head.dataLen :=
    toInt32_of_lt (Int.natCast_nonneg _) (by omega)
  have hpass : passSegments total 0 c.segs = (0, [], c.head :: c.next) := by
    simp only [MbufChain.segs, passSegments, Int.add_zero, hint, if_neg (Int.not_lt.mpr hlong.le)]
  have hcopy : (c.head.read c.head.dataLen).length = c.head.dataLen :=
    hhead.length_read (Nat.le_refl _)
  simp only [tryReadExactAmount, hpass, Int.zero_add, hint, if_pos hlong, cutAtPrev,
    MbufChain.ofLast, copyChain, payload_nil, append_nil]
  exact ⟨trivial, hcopy⟩

variable (req : Request)

theorem recvNow_overruns (hs : Ready s) (hdata : available s ≠ []) (hpos : 0 < req.tempBytes)
    (hlong : req.tempBytes < firstLen s) :
    ∃ r ring, recvNow s req = some (finishData { s with rxRing := ring } req r) ∧
      r.totalLen = req.tempBytes ∧
      (copyChain r.firstSegmentLen r.chain).length = firstLen s := by
  cases hshadow : s.shadow with
  | none =>
    cases hitems : s.rxRing.items with
    | nil => exact absurd (hs.available_eq_nil_iff.mpr ⟨hshadow, hitems⟩) hdata
    | cons c rest =>
      obtain ⟨ring, hdeq⟩ : ∃ ring, s.rxRing.dequeue = some (c, ring) := by
        have hbounded := s.rxRing.bounded
        rw [hitems, length_cons] at hbounded
        exact ⟨⟨rest, by omega⟩, Ring.dequeue_eq_some_iff.mpr hitems⟩
      have hfirst : firstLen s = c.head.dataLen := by simp [firstLen, hshadow, hitems]
      rw [hfirst] at hlong ⊢
      obtain ⟨htotal, hcopy⟩ := tryReadExactAmount_short none c.wellFormed hlong
      refine ⟨_, ring, ?_, htotal, hcopy⟩
      simp only [recvNow, callRecv, hshadow, hdeq, useChain, if_pos hpos, finishData]
  | some sh =>
    have hfirst : firstLen s = (getFromShadow sh).head.dataLen := by simp [firstLen, hshadow]
    rw [hfirst] at hlong ⊢
    obtain ⟨htotal, hcopy⟩ := tryReadExactAmount_short none (hs.shadowOk sh hshadow) hlong
    generalize hr : tryReadExactAmount (getFromShadow sh) none req.tempBytes = r at htotal hcopy
    have hsame : { r with totalLen := req.tempBytes } = r := by
      cases r
      simpa using htotal.symm
    refine ⟨r, s.rxRing, ?_, htotal, hcopy⟩
    have hfull : ¬ (0 < req.tempBytes ∧ req.tempBytes < req.tempBytes) := fun h => h.2.false
    simp only [recvNow, callRecv, hshadow, if_pos hpos, hr, htotal, if_neg hfull, hsame]
    rfl

theorem recvNow_unlimited (hs : Ready s) (hdata : available s ≠ [])
    (hsmall : (available s).length < 2 ^ 31) (hall : req.tempBytes ≤ 0) :
    ∃ c ring, recvNow s req = some (finishData { s with rxRing := ring } req (readAll c)) ∧
      payload c.segs ++ ringBytes ring = available s ∧ payload c.segs ≠ [] ∧
      ring.items <:+ s.rxRing.items ∧
      (toInt32 c.head.pktLen = ((payload c.segs).length : Int) ↔ ∀ sh ∈ s.shadow,
        toInt32 (getFromShadow sh).head.pktLen = ((leftover s.shadow).length : Int)) := by
  have hlimit : ¬ 0 < req.tempBytes := by omega
  have hparts : (leftover s.shadow).length + (ringBytes s.rxRing).length < 2 ^ 31 := by
    simpa [available] using hsmall
  cases hdeq : s.rxRing.dequeue with
  | none =>
    have hitems := Ring.dequeue_eq_none_iff.mp hdeq
    cases hshadow : s.shadow with
    | none => exact absurd (hs.available_eq_nil_iff.mpr ⟨hshadow, hitems⟩) hdata
    | some sh =>
      refine ⟨getFromShadow sh, s.rxRing, ?_, ?_, ?_, suffix_rfl, ?_⟩
      · simp only [recvNow, callRecv, hshadow, hdeq, if_neg hlimit, Purpose.blocks,
          Bool.false_eq_true, and_false, if_false, noChain]
        rfl
      · rw [available, hshadow, leftover]
      · exact ne_nil_of_length_pos (length_payload_pos (hs.shadowOk sh hshadow))
      · simp [leftover]
  | some x =>
    obtain ⟨c, ring⟩ := x
    have hitems := Ring.dequeue_eq_some_iff.mp hdeq
    have hbytes := ringBytes_of_dequeue hdeq
    have hcounted : c.head.pktLen = toUInt32 (payload c.segs).length :=
      hs.counted c (by simp [hitems])
    rw [hbytes, length_append] at hparts
    have hsuffix : ring.items <:+ s.rxRing.items := hitems ▸ suffix_cons c ring.items
    cases hshadow : s.shadow with
    | none =>
      refine ⟨c.toMbufChain, ring, ?_, ?_, ?_, hsuffix, ?_⟩
      · simp only [recvNow, callRecv, hshadow, hdeq, useChain, if_neg hlimit]
        rfl
      · rw [available, hshadow, leftover, nil_append, hbytes]
      · exact ne_nil_of_length_pos (length_payload_pos c.wellFormed)
      · rw [hcounted, toUInt32_of_lt (by omega) (by omega), toInt32_of_lt (by omega) (by omega)]
        simp
    | some sh =>
      have hlinked : payload (linkAll (getFromShadow sh) c.toMbufChain).segs =
          leftover s.shadow ++ payload c.segs := by
        simp only [linkAll, MbufChain.segs_append, payload_append, hshadow]
        rfl
      refine ⟨linkAll (getFromShadow sh) c.toMbufChain, ring, ?_, ?_, ?_, hsuffix, ?_⟩
      · simp only [recvNow, callRecv, hshadow, hdeq, useChain, if_neg hlimit]
        rfl
      · rw [hlinked, available, hbytes, append_assoc]
      · rw [hlinked]
        simp [ne_nil_of_length_pos (length_payload_pos c.wellFormed)]
      · have hsum : (linkAll (getFromShadow sh) c.toMbufChain).head.pktLen =
            toUInt32 ((getFromShadow sh).head.pktLen + c.head.pktLen) := rfl
        rw [hshadow] at hparts
        simp only [hlinked, hsum, hcounted, length_append, hshadow, Option.mem_some,
          forall_eq', toUInt32]
        rw [toInt32_eq_iff (by omega), toInt32_eq_iff (by omega)]
        omega

theorem recvEntry_of_finishData {ring : Ring RxChain cap} {r : ExactAmount}
    (hcall : recvNow s ⟨n % 2 ^ 32, nonblock⟩ =
      some (finishData { s with rxRing := ring } ⟨n % 2 ^ 32, nonblock⟩ r)) :
    recvEntry nonblock s n = some ((n, ⟨n % 2 ^ 32, r.totalLen,
      if 0 < r.totalLen then copyChain r.firstSegmentLen r.chain else []⟩),
      finishData { s with rxRing := ring } ⟨n % 2 ^ 32, nonblock⟩ r) := by
  rw [recvEntry, hcall]
  simp [finishData]

theorem recvEntry_cases (nonblock : Bool) (n : Nat) (hs : Ready s) (hdata : available s ≠ [])
    (hsmall : (available s).length < 2 ^ 31) :
    ∃ c t, recvEntry nonblock s n = some ((n, c), t) ∧
      (Fits s n ∧ GoodCall s t n c ∧ Ready t ∨ ¬ Fits s n ∧ BadCall s t n c) := by
  have htemp : (⟨n % 2 ^ 32, nonblock⟩ : Request).tempBytes = toInt32 n := toInt32_mod n
  have hmod : n % 2 ^ 32 ≤ n := Nat.mod_le _ _
  by_cases hpos : 0 < toInt32 n
  · have hrange := toInt32_eq_of_pos hpos
    by_cases hfits : (firstLen s : Int) ≤ toInt32 n
    · obtain ⟨r, ring, bytes, hcall, hr, hbytes, hsuffix⟩ :=
        recvNow_of_available True ⟨n % 2 ^ 32, nonblock⟩ hs hdata hsmall
          (fun _ => ⟨by dsimp only; omega, by have := toInt32_lt n; dsimp only; omega⟩)
          (fun _ => by dsimp only; omega) (by omega)
      refine ⟨_, _, recvEntry_of_finishData hcall, .inl ⟨?_, ?_, hs.finishData hr hsuffix⟩⟩
      · exact .inl ⟨hpos, hfits⟩
      · have hexact := hr.exact trivial
        have hle := hr.le trivial
        refine ⟨hr.pos, ?_, ?_, ?_⟩
        · rw [if_pos hr.pos, hexact, hr.length]
        · dsimp only at hle ⊢
          omega
        · rw [if_pos hr.pos, hexact, ← hbytes, ← hr.split]
          simp [available, finishData]
    · obtain ⟨r, ring, hcall, htotal, hcopy⟩ :=
        recvNow_overruns ⟨n % 2 ^ 32, nonblock⟩ hs hdata (by omega) (by omega)
      refine ⟨_, _, recvEntry_of_finishData hcall, .inr ⟨?_, ?_⟩⟩
      · unfold Fits
        omega
      · have hint := toInt32_lt n
        rw [BadCall, htotal, if_pos (by omega), hcopy]
        dsimp only
        omega
  · obtain ⟨c, ring, hcall, hbytes, hne, hsuffix, hcounted⟩ :=
      recvNow_unlimited ⟨n % 2 ^ 32, nonblock⟩ hs hdata hsmall (by omega)
    refine ⟨_, _, recvEntry_of_finishData hcall, ?_⟩
    have hcopy : copyChain (readAll c).firstSegmentLen (readAll c).chain = payload c.segs :=
      copyChain_head c
    have htotal : (readAll c).totalLen = toInt32 c.head.pktLen := by rw [readAll]
    have havailable : available (finishData { s with rxRing := ring } ⟨n % 2 ^ 32, nonblock⟩
        (readAll c)) = ringBytes ring := nil_append _
    have hlength := congrArg List.length hbytes
    rw [length_append] at hlength
    have hsome : 0 < (payload c.segs).length := length_pos_iff.mpr hne
    have hint := toInt32_lt c.head.pktLen
    have hlarge : n = 0 ∨ 2 ^ 31 ≤ n := by
      rw [toInt32, Int.bmod_def] at hpos
      split at hpos <;> omega
    have hiff : Fits s n ↔ n ≠ 0 ∧ toInt32 c.head.pktLen = (payload c.segs).length := by
      rw [Fits, ← hcounted]
      omega
    rw [hiff, GoodCall, BadCall, htotal, hcopy, havailable]
    dsimp only
    by_cases hret : 0 < toInt32 c.head.pktLen
    · rw [if_pos hret]
      by_cases hright : n ≠ 0 ∧ toInt32 c.head.pktLen = (payload c.segs).length
      · refine .inl ⟨hright, ⟨hret, by omega, by omega, hbytes⟩, rfl, ?_, ?_⟩
        · intro sh hshadow
          cases hshadow
        · exact fun c' hc' => hs.counted c' (hsuffix.subset hc')
      · exact .inr ⟨hright, by omega⟩
    · rw [if_neg hret]
      refine .inr ⟨by omega, .inr ⟨.inl (by omega), hint, fun hsame => ?_⟩⟩
      have hlost := congrArg List.length hsame.2
      simp only [nil_append] at hlost
      omega

/-- `retlen` bytes having been read before, it does not wait, fills its entries in order with the
next bytes of the stream and returns 0 for entries with room at the end of the stream only. -/
structure Reads (lens : List Nat) (retlen : Int) (s : Sock cap)
    (e : Ended (Nat × Call) (Sock cap)) : Prop where
  prompt : e.ret = none → e.retlen = 0
  entries : e.made.map Prod.fst <+: lens
  within : ∀ x ∈ e.made, x.2.written.length ≤ x.1
  filled : ∀ x ∈ e.made.dropLast, x.2.written.length = x.1
  stream : (e.made.flatMap fun x => x.2.written) ++ available e.state = available s
  counted : ∀ r, e.ret = some r → r = retlen + (e.made.flatMap fun x => x.2.written).length ∨
    retlen = 0 ∧ r < 0 ∧ (e.made.flatMap fun x => x.2.written) = []
  eof : e.ret = some 0 → lens.sum ≠ 0 → 3 ≤ s.signal ∧ available s = []

def ReadvFits (nonblock : Bool) : List Nat → Int → Sock cap → Prop
  | [], _, _ => True
  | n :: rest, retlen, s =>
    if available s = [] then 0 < retlen → nonblock = true ∨ 3 ≤ s.signal
    else Fits s n ∧ ∀ c t, recvEntry nonblock s n = some ((n, c), t) → c.ret = n →
      ReadvFits nonblock rest (retlen + n) t

variable {retlen : Int}

theorem reads_cons_iff {c : Call} {lens : List Nat} {e : Ended (Nat × Call) (Sock cap)}
    (hretlen : 0 ≤ retlen) (hc : GoodCall s t n c) (hfull : c.ret = n) :
    Reads (n :: lens) retlen s { e with made := (n, c) :: e.made } ↔
      Reads lens (retlen + n) t e := by
  obtain ⟨hpos, hlength, -, hstream⟩ := hc
  have hwritten : c.written.length = n := by omega
  have hsome : c.written ≠ [] := by
    rintro hnil
    rw [hnil, length_nil] at hwritten
    omega
  have hlast : ∀ P : Nat × Call → Prop, P (n, c) →
      ((∀ x ∈ ((n, c) :: e.made).dropLast, P x) ↔ ∀ x ∈ e.made.dropLast, P x) := by
    intro P hP
    cases e.made with
    | nil => simp
    | cons x made => simp [hP]
  constructor
  · intro h
    exact {
      prompt := h.prompt
      entries := by simpa using h.entries
      within := fun x hx => h.within x (mem_cons_of_mem _ hx)
      filled := (hlast _ hwritten).mp h.filled
      stream := by
        have hbytes := h.stream
        rw [← hstream, flatMap_cons, append_assoc] at hbytes
        exact append_cancel_left hbytes
      counted := by
        intro r hr
        rcases h.counted r hr with hsum | ⟨-, -, hnil⟩
        · simp only [flatMap_cons, length_append] at hsum
          omega
        · exact absurd (append_eq_nil_iff.mp hnil).1 hsome
      eof := by
        intro hzero
        have hempty := (h.eof hzero (by simp; omega)).2
        rw [← hstream] at hempty
        exact absurd (append_eq_nil_iff.mp hempty).1 hsome }
  · intro h
    exact {
      prompt := h.prompt
      entries := by simpa using h.entries
      within := forall_mem_cons.mpr ⟨hwritten.le, h.within⟩
      filled := (hlast _ hwritten).mpr h.filled
      stream := by rw [flatMap_cons, append_assoc, h.stream, hstream]
      counted := by
        intro r hr
        have hsum := h.counted r hr
        simp only [flatMap_cons, length_append]
        omega
      eof := by
        intro hzero
        have hsum := h.counted 0 hzero
        omega }

theorem reads_last_iff {c : Call} {rest : List Nat} {r total : Int} :
    Reads (n :: rest) retlen s ⟨some r, total, [(n, c)], t⟩ ↔ c.written.length ≤ n ∧
      c.written ++ available t = available s ∧
      (r = retlen + c.written.length ∨ retlen = 0 ∧ r < 0 ∧ c.written = []) ∧
      (r = 0 → n + rest.sum ≠ 0 → 3 ≤ s.signal ∧ available s = []) := by
  constructor
  · intro h
    refine ⟨h.within _ (mem_singleton_self _), ?_, ?_, fun hr => ?_⟩
    · simpa using h.stream
    · simpa using h.counted r rfl
    · simpa [hr] using h.eof
  · rintro ⟨hwithin, hstream, hcounted, heof⟩
    exact {
      prompt := nofun
      entries := by simp
      within := by simpa using hwithin
      filled := by simp
      stream := by simpa using hstream
      counted := by
        intro r' hr
        simpa [← Option.some.inj hr] using hcounted
      eof := by
        intro hr
        simpa using heof (Option.some.inj hr) }

theorem reads_of_empty {rest : List Nat} (hs : Ready s) (hretlen : 0 ≤ retlen)
    (hdata : available s = []) :
    Reads (n :: rest) retlen s (lightReadv nonblock (n :: rest) retlen s) ↔
      (0 < retlen → nonblock = true ∨ 3 ≤ s.signal) := by
  rw [lightReadv, vectored, recvEntry, recvNow_of_empty hs hdata]
  by_cases hwait : s.signal < 3 ∧ nonblock = false
  · rw [if_pos hwait]
    refine ⟨fun h hpos => absurd (h.prompt rfl) hpos.ne', fun h => ?_⟩
    have hzero : retlen = 0 := by
      by_contra hne
      rcases h (by omega) with hnonblock | hsignal
      · simp [hwait.2] at hnonblock
      · omega
    exact ⟨fun _ => hzero, nil_prefix, nofun, nofun, rfl, nofun, nofun⟩
  · have hends : nonblock = true ∨ 3 ≤ s.signal := by
      cases nonblock with
      | false => exact .inr (by simpa using hwait)
      | true => exact .inl rfl
    rw [if_neg hwait]
    simp only [Option.bind_some, finishEmpty, List.getLast?_concat, Option.map_some]
    rw [if_pos (by split <;> decide), reads_last_iff]
    refine iff_of_true ⟨Nat.zero_le n, rfl, ?_, ?_⟩ fun _ => hends
    · simp only [length_nil, and_true]
      split_ifs <;> omega
    · intro hzero _
      refine ⟨?_, hdata⟩
      split_ifs at hzero <;> omega

theorem reads_iff {lens : List Nat} (hs : Ready s) (hretlen : 0 ≤ retlen)
    (hsmall : retlen + (available s).length < 2 ^ 31) :
    Reads lens retlen s (lightReadv nonblock lens retlen s) ↔
      ReadvFits nonblock lens retlen s := by
  induction lens generalizing retlen s with
  | nil =>
    simp only [lightReadv, vectored, ReadvFits, iff_true]
    exact ⟨nofun, prefix_rfl, nofun, nofun, rfl, by simp, by simp⟩
  | cons n rest ih =>
    rw [ReadvFits]
    by_cases hdata : available s = []
    · rw [if_pos hdata, reads_of_empty hs hretlen hdata]
    rw [if_neg hdata]
    obtain ⟨c, t, hcall, hcases⟩ := recvEntry_cases nonblock n hs hdata (by omega)
    rw [lightReadv, vectored, hcall]
    dsimp only
    rcases hcases with ⟨hfits, hgood, ht⟩ | ⟨hfits, hbad⟩
    · obtain ⟨hpos, hlength, hle, hstream⟩ := id hgood
      have hbytes := congrArg List.length hstream
      rw [length_append] at hbytes
      rw [if_neg (by omega), toInt32_of_lt (by omega) (by omega)]
      by_cases hpart : c.ret < n
      · rw [if_pos hpart, reads_last_iff]
        refine iff_of_true ⟨by omega, hstream, .inl (by omega), fun _ => by omega⟩ ⟨hfits, ?_⟩
        rintro c' t' ⟨⟩ hfull
        omega
      · have hfull : c.ret = n := by omega
        rw [if_neg hpart, reads_cons_iff hretlen hgood hfull, hfull]
        refine Iff.trans (ih ht (by omega) (by omega))
          ⟨fun h => ⟨hfits, ?_⟩, fun h => h.2 c t rfl hfull⟩
        rintro c' t' ⟨⟩ -
        exact h
    · refine iff_of_false (fun h => ?_) fun h => hfits h.1
      rcases hbad with hover | ⟨hstops, hint, hmiss⟩
      · have hwithin := h.within (n, c) (by split_ifs <;> simp)
        dsimp only at hwithin
        omega
      · by_cases hret : c.ret ≤ 0
        · rw [if_pos hret, reads_last_iff] at h
          obtain ⟨-, hstream, hsum | ⟨-, -, hnil⟩, -⟩ := h
          · refine hmiss ⟨?_, hstream⟩
            split_ifs at hsum <;> omega
          · exact hmiss ⟨by simp [hnil, hret], hstream⟩
        · rw [if_neg hret, if_pos (by omega), reads_last_iff] at h
          obtain ⟨-, hstream, hsum, -⟩ := h
          rw [toInt32, Int.bmod_def] at hsum
          exact hmiss ⟨by split at hsum <;> omega, hstream⟩

/-! ## `light_writev` -/

open Tx.Send Tx.Send.Call

structure Sent where
  len : Nat
  rc : Int
  bytes : List UInt8
  deriving DecidableEq

def sendEntry (stale : Nat → Buffer) (_ : Unit) (x : List UInt8 × Conn) : Option (Sent × Unit) :=
  match Call.lightSend x.2 x.1 stale with
  | .returns c rc => some (⟨x.1.length, rc,
      bytesOf ((c.txRing.items.drop x.2.txRing.items.length).map Desc.buffer)⟩, ())
  | _ => none

def lightWritev (stale : Nat → Buffer) (entries : List (List UInt8 × Conn)) (retlen : Int) :
    Ended Sent Unit :=
  vectored (fun x => x.1.length) Sent.rc (sendEntry stale) entries retlen ()

variable {stale : Nat → Buffer} {x : List UInt8 × Conn} {y : Sent}

theorem count_mul_lt (nbytes : Nat) (space : Int) :
    (bufCount nbytes space).toNat * payloadMax < nbytes + payloadMax := by
  have hint : ∀ k : Nat, toInt32 k ≤ k := by
    intro k
    rw [toInt32, Int.bmod_def]
    split <;> omega
  have hcount := hint (nbytes / payloadMax)
  simp only [bufCount, payloadMax] at hcount ⊢
  split_ifs <;> omega

theorem sendEntry_spec (hcall : sendEntry stale () x = some (y, ())) :
    y.len = x.1.length ∧ (y.rc = -1 ∧ y.bytes = [] ∨
      0 ≤ y.rc ∧ y.rc ≤ x.1.length ∧ y.bytes = x.1.take y.rc.toNat) := by
  obtain ⟨data, c⟩ := x
  have hsame : bytesOf ((c.txRing.items.drop c.txRing.items.length).map Desc.buffer) = [] := by
    simp [bytesOf]
  unfold sendEntry at hcall
  split at hcall
  · rename_i c' rc hreturns
    obtain ⟨rfl, -⟩ := Prod.mk.inj (Option.some.inj hcall)
    refine ⟨rfl, ?_⟩
    unfold Call.lightSend at hreturns
    dsimp only at hreturns ⊢
    generalize getSocketTxSpace (contents c.txRing) c.pool.length c.txSpace = space at hreturns
    split at hreturns
    · cases hreturns
    split at hreturns
    · obtain ⟨rfl, rfl⟩ := Outcome.returns.inj hreturns
      exact .inl ⟨rfl, hsame⟩
    split at hreturns
    · obtain ⟨rfl, rfl⟩ := Outcome.returns.inj hreturns
      exact .inl ⟨rfl, hsame⟩
    rename_i mbufs pool hget
    split at hreturns
    · rename_i hbulk
      rw [kickLoop_eq 0] at hreturns
      obtain ⟨rfl, rfl⟩ := Outcome.returns.inj hreturns
      obtain ⟨hfilled, hbytes, -⟩ := fillBuffers_spec _ data (count_mul_lt data.length space)
      obtain ⟨⟨hnonneg, hpool⟩, hpair⟩ := Option.ite_none_right_eq_some.mp hget
      obtain ⟨rfl, -⟩ := Prod.mk.inj (Option.some.inj hpair)
      obtain ⟨-, hbuffers⟩ := describe_eq stale (hfilled.trans (length_take_of_le hpool).symm)
      obtain ⟨ring, hring, rfl⟩ := Option.map_eq_some_iff.mp hbulk
      rw [Ring.items_of_enqueueBulk hring, drop_left, hbuffers, hbytes]
      refine .inr ⟨Int.natCast_nonneg _, ?_, ?_⟩
      · rw [length_take]
        omega
      · rw [Int.toNat_natCast, length_take, take_eq_take_iff]
        omega
    · split at hreturns
      · obtain ⟨rfl, rfl⟩ := Outcome.returns.inj hreturns
        exact .inl ⟨rfl, hsame⟩
      · cases hreturns
  · cases hcall

structure Writes (entries : List (List UInt8 × Conn)) (retlen : Int) (e : Ended Sent Unit) :
    Prop where
  sent : e.made.flatMap Sent.bytes <+: entries.flatMap Prod.fst
  counted : ∀ r, e.ret = some r → r = retlen + (e.made.flatMap Sent.bytes).length ∨
    retlen = 0 ∧ r < 0 ∧ e.made.flatMap Sent.bytes = []
  whole : ∀ r, e.ret = some r → e.made.flatMap Sent.bytes = entries.flatMap Prod.fst ∨
    ∃ y ∈ e.made, y.rc < y.len

/-- No entry that is empty and taken comes before one that is not, and the number of bytes taken is
an `int`. -/
def WritevFits (stale : Nat → Buffer) : List (List UInt8 × Conn) → Int → Prop
  | [], retlen => retlen < 2 ^ 31
  | x :: rest, retlen => ∀ y, sendEntry stale () x = some (y, ()) →
    if y.rc ≠ x.1.length then retlen + max y.rc 0 < 2 ^ 31
    else if x.1 = [] then rest.flatMap Prod.fst = [] ∧ retlen < 2 ^ 31
    else WritevFits stale rest (retlen + y.rc)

theorem writes_last_iff {entries : List (List UInt8 × Conn)} {r total : Int} :
    Writes entries retlen ⟨some r, total, [y], ()⟩ ↔ y.bytes <+: entries.flatMap Prod.fst ∧
      (r = retlen + y.bytes.length ∨ retlen = 0 ∧ r < 0 ∧ y.bytes = []) ∧
      (y.bytes = entries.flatMap Prod.fst ∨ y.rc < y.len) := by
  constructor
  · intro h
    exact ⟨by simpa using h.sent, by simpa using h.counted r rfl, by simpa using h.whole r rfl⟩
  · rintro ⟨hsent, hcounted, hwhole⟩
    refine ⟨by simpa using hsent, ?_, ?_⟩
    · rintro r' ⟨⟩
      simpa using hcounted
    · rintro r' ⟨⟩
      simpa using hwhole

theorem writes_cons_iff {rest : List (List UInt8 × Conn)} {e : Ended Sent Unit}
    (hretlen : 0 ≤ retlen) (hpos : 0 < y.rc) (hlen : y.rc = y.len) (hrc : y.rc = x.1.length)
    (hbytes : y.bytes = x.1) :
    Writes (x :: rest) retlen { e with made := y :: e.made } ↔ Writes rest (retlen + y.rc) e := by
  have hsome : y.bytes ≠ [] := by
    rintro hnil
    rw [← hbytes, hnil, length_nil] at hrc
    omega
  have hlength : (y.bytes.length : Int) = y.rc := by rw [hbytes, hrc]
  constructor
  · intro h
    refine ⟨by simpa [hbytes] using h.sent, fun r hr => ?_, fun r hr => ?_⟩
    · rcases h.counted r hr with hsum | ⟨-, -, hnil⟩
      · simp only [flatMap_cons, length_append] at hsum
        omega
      · exact absurd (append_eq_nil_iff.mp hnil).1 hsome
    · simpa [hbytes, hlen] using h.whole r hr
  · intro h
    refine ⟨by simpa [hbytes] using h.sent, fun r hr => ?_, fun r hr => ?_⟩
    · have hsum := h.counted r hr
      simp only [flatMap_cons, length_append]
      omega
    · simpa [hbytes, hlen] using h.whole r hr

theorem toInt32_eq_self_iff (hretlen : 0 ≤ retlen) : toInt32 retlen = retlen ↔ retlen < 2 ^ 31 := by
  constructor
  · intro h
    exact h ▸ toInt32_lt retlen
  · exact toInt32_of_lt hretlen

/-- What is returned for a call that takes nothing. -/
theorem retlen_kept_iff {rc : Int} (hretlen : 0 ≤ retlen) (hrc : rc ≤ 0) :
    ((if 0 < toInt32 retlen then toInt32 retlen else rc) = retlen ∨
      retlen = 0 ∧ (if 0 < toInt32 retlen then toInt32 retlen else rc) < 0) ↔ retlen < 2 ^ 31 := by
  rw [← toInt32_eq_self_iff hretlen]
  split
  · omega
  · rcases hretlen.eq_or_lt with rfl | hpos
    · simp [toInt32]
      omega
    · omega

theorem writes_iff {entries : List (List UInt8 × Conn)} (hretlen : 0 ≤ retlen) :
    Writes entries retlen (lightWritev stale entries (toInt32 retlen)) ↔
      WritevFits stale entries retlen := by
  unfold lightWritev
  induction entries generalizing retlen with
  | nil =>
    rw [vectored, WritevFits, ← toInt32_eq_self_iff hretlen]
    constructor
    · intro h
      rcases h.counted _ rfl with hsum | ⟨hzero, hneg, -⟩
      · simpa using hsum
      · simp [hzero, toInt32] at hneg
    · intro h
      exact ⟨prefix_rfl, fun r hr => .inl (by simpa [h] using (Option.some.inj hr).symm), by simp⟩
  | cons x rest ih =>
    rw [WritevFits, vectored]
    cases hcall : sendEntry stale () x with
    | none => exact iff_of_true ⟨List.nil_prefix, nofun, nofun⟩ nofun
    | some p =>
      obtain ⟨y, ⟨⟩⟩ := p
      obtain ⟨hlen, hspec⟩ := sendEntry_spec hcall
      have hone : ∀ P : Sent → Prop, (∀ y', some (y, ()) = some (y', ()) → P y') ↔ P y := by simp
      have hpre : x.1.take y.rc.toNat <+: (x :: rest).flatMap Prod.fst := by
        rw [flatMap_cons]
        exact (List.take_prefix _ x.1).trans (prefix_append _ _)
      have hbytes : y.bytes = x.1.take y.rc.toNat := by
        rcases hspec with ⟨hfail, hnil⟩ | ⟨-, -, hbytes⟩
        · rw [hnil, hfail]
          rfl
        · exact hbytes
      have hlength : (y.bytes.length : Int) = max y.rc 0 := by
        rw [hbytes, length_take]
        omega
      rw [hone]
      dsimp only
      by_cases hstop : y.rc ≤ 0
      · have hnil : y.bytes = [] := by
          rw [hbytes, Int.toNat_of_nonpos hstop, take_zero]
        rw [if_pos hstop, writes_last_iff, hnil, length_nil, Nat.cast_zero, add_zero,
          and_iff_right List.nil_prefix, and_iff_left rfl, retlen_kept_iff hretlen hstop]
        by_cases hall : y.rc = x.1.length
        · have hempty : x.1 = [] := length_eq_zero_iff.mp (by omega)
          rw [if_neg (not_not.mpr hall), if_pos hempty, flatMap_cons, hempty, nil_append,
            or_iff_left (by omega), eq_comm, and_comm]
        · rw [if_pos hall, and_iff_left (.inr (by omega)), max_eq_right hstop, add_zero]
      · have hadd : toInt32 (toInt32 retlen + y.rc) = toInt32 (retlen + y.rc) := Int.bmod_add_bmod
        have hsome : y.bytes ≠ [] := ne_nil_of_length_pos (by omega)
        rw [if_neg hstop, hadd]
        by_cases hall : y.rc = x.1.length
        · have hne : x.1 ≠ [] := fun h => by simp [h] at hall; omega
          rw [if_neg (by omega), if_neg (not_not.mpr hall), if_neg hne,
            writes_cons_iff hretlen (by omega) (by omega) hall
              (by rw [hbytes, hall, Int.toNat_natCast, take_length])]
          exact ih (by omega)
        · rw [if_pos (by omega), if_pos hall, writes_last_iff, hlength, max_eq_left (by omega),
            toInt32_eq_self_iff (by omega), and_iff_right (hbytes ▸ hpre),
            and_iff_left (.inr (by omega)), or_iff_left fun h => hsome h.2.2]

/-- Both agree with the concatenated entries exactly if `light_writev` meets no gap and no overflow
and every call of `light_readv` finds what fits its entry. -/
theorem vectored_agrees (stale : Nat → Buffer) (entries : List (List UInt8 × Conn))
    (nonblock : Bool) (lens : List Nat) (s : Sock cap) (hs : Ready s)
    (hsmall : (available s).length < 2 ^ 31) :
    (Writes entries 0 (lightWritev stale entries 0) ↔ WritevFits stale entries 0) ∧
      (Reads lens 0 s (lightReadv nonblock lens 0 s) ↔ ReadvFits nonblock lens 0 s) :=
  ⟨writes_iff le_rfl, reads_iff hs le_rfl (by omega)⟩

def idleConn : Conn := ⟨Ring.empty, [5, 6, 7], 4344, 2, false, 0⟩

def twoReceived : Sock 7 :=
  { (Sock.fresh : Sock 7) with rxRing := ⟨[⟨⟨filledMbuf [7, 8], []⟩, by decide⟩], by simp⟩ }

def threeReceived : Sock 7 :=
  { (Sock.fresh : Sock 7) with
    rxRing := ⟨[⟨⟨filledMbuf [7, 8], []⟩, by decide⟩, ⟨⟨filledMbuf [9], []⟩, by decide⟩], by simp⟩ }

theorem vectored_agrees_two :
    Writes [([1, 2], idleConn), ([3], idleConn)] 0
        (lightWritev (fun _ => ⟨[]⟩) [([1, 2], idleConn), ([3], idleConn)] 0) ∧
      Reads [2, 3] 0 threeReceived (lightReadv true [2, 3] 0 threeReceived) := by
  obtain ⟨hwrites, hreads⟩ := vectored_agrees (fun _ => ⟨[]⟩) [([1, 2], idleConn), ([3], idleConn)]
    true [2, 3] threeReceived ⟨rfl, nofun, by decide⟩ (by decide)
  have hfirst : sendEntry (fun _ => ⟨[]⟩) () ([1, 2], idleConn) = some (⟨2, 2, [1, 2]⟩, ()) := by
    decide +kernel
  have hsecond : sendEntry (fun _ => ⟨[]⟩) () ([3], idleConn) = some (⟨1, 1, [3]⟩, ()) := by
    decide +kernel
  refine ⟨hwrites.mpr ?_, hreads.mpr ?_⟩
  · simp [WritevFits, hfirst, hsecond]
  · rw [ReadvFits, if_neg (by decide)]
    refine ⟨.inl (by decide), fun c t hcall _ => ?_⟩
    have hnext : (recvEntry true threeReceived 2).all (fun x =>
        available x.2 ≠ [] ∧ (firstLen x.2 : Int) ≤ toInt32 (3 : Nat)) = true := by decide +kernel
    rw [hcall, Option.all_some, decide_eq_true_eq] at hnext
    rw [ReadvFits, if_neg hnext.1]
    exact ⟨.inl ⟨by decide, hnext.2⟩, fun _ _ _ _ => trivial⟩

theorem empty_entry_breaks : ¬ Writes [([], idleConn), ([1, 2], idleConn)] 0
        (lightWritev (fun _ => ⟨[]⟩) [([], idleConn), ([1, 2], idleConn)] 0) ∧
      ¬ Reads [0, 2] 0 twoReceived (lightReadv true [0, 2] 0 twoReceived) := by
  have hsent : (lightWritev (fun _ => ⟨[]⟩) [([], idleConn), ([1, 2], idleConn)] 0).ret = some 0 ∧
      (lightWritev (fun _ => ⟨[]⟩) [([], idleConn), ([1, 2], idleConn)] 0).made = [⟨0, 0, []⟩] := by
    decide +kernel
  have hread : (lightReadv true [0, 2] 0 twoReceived).made =
      [(0, ⟨0, 2, [7, 8]⟩), (2, ⟨2, -1, []⟩)] := by
    decide +kernel
  constructor
  · intro h
    have hwhole := h.whole 0 hsent.1
    simp [hsent.2] at hwhole
  · intro h
    have hwithin := h.within
    simp [hread] at hwithin

end LightStack.Vectored
