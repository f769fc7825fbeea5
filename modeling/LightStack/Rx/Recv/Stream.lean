import LightStack.Rx.Recv.Cut

/-!
# The byte stream seen by `light_recv`
-/

namespace LightStack.Rx.Recv

open Lib List

variable {cap : Nat}

/-! ## What a run of calls preserves -/

def RecvPc.work : RecvPc → Option (Request × Purpose)
  | .idle => none
  | .kick req p => some (req, p)
  | .testCache req p => some (req, p)
  | .testRing req p => some (req, p)
  | .testSignal req p => some (req, p)
  | .dequeue req p => some (req, p)
  | .lastCache req => some (req, .fresh)
  | .lastRing req => some (req, .fresh)
  | .lastSignal req => some (req, .fresh)

def Purpose.held : Purpose → List UInt8
  | .fresh => []
  | .more left => payload left.chain.segs
  | .all left => payload left.segs

def RecvPc.held (pc : RecvPc) : List UInt8 :=
  match pc.work with
  | none => []
  | some (_, p) => p.held

def ringBytes (ring : Ring RxChain cap) : List UInt8 := ring.items.flatMap fun c => payload c.segs

def returnedBytes (calls : List Call) : List UInt8 := calls.flatMap Call.returned

def Request.InRange (req : Request) : Prop := 1 ≤ req.nbytes ∧ req.nbytes < 2 ^ 31

instance (req : Request) : Decidable req.InRange := inferInstanceAs (Decidable (_ ∧ _))

theorem Request.tempBytes_lt (req : Request) : req.tempBytes < 2 ^ 31 := toInt32_lt req.nbytes

variable {req : Request} {c : MbufChain} {r : ExactAmount} {p : Purpose} {ring : Ring RxChain cap}

theorem Request.InRange.tempBytes_eq (hreq : req.InRange) : req.tempBytes = req.nbytes :=
  toInt32_of_lt (by omega) (by have := hreq.2; omega)

theorem Request.InRange.tempBytes_pos (hreq : req.InRange) : 0 < req.tempBytes := by
  have hlow := hreq.1
  rw [hreq.tempBytes_eq]
  omega

def Call.Exact (c : Call) : Prop := 0 < c.ret → (c.written.length : Int) = c.ret ∧ c.ret ≤ c.nbytes

instance (c : Call) : Decidable c.Exact := inferInstanceAs (Decidable (_ → _))

def Purpose.Ok (req : Request) : Purpose → Prop
  | .fresh => True
  | .more left =>
    ((payload left.chain.segs).length : Int) = left.totalLen ∧
      0 < left.totalLen ∧ left.totalLen < req.tempBytes ∧
      left.shadow = none ∧
      copyChain left.firstSegmentLen left.chain = payload left.chain.segs
  | .all left => req.tempBytes ≤ 0 ∧ left.WellFormed ∧ left.Counted ∧
      (payload left.segs).length < 2 ^ 31

structure Conserved (strict : Prop) (queued : List UInt8) (s : Sock cap) :
    Prop where
  stream : returnedBytes s.calls ++ (s.pc.held ++
    (leftover s.shadow ++ ringBytes s.rxRing)) = queued
  shadowOk : ∀ sh, s.shadow = some sh → (getFromShadow sh).WellFormed
  counted : ∀ c ∈ s.rxRing.items, strict ∨ c.Counted
  workOk : ∀ req p, s.pc.work = some (req, p) → (strict → req.InRange) ∧ p.Ok req ∧ s.shadow = none
  calls : strict → ∀ c ∈ s.calls, c.Exact

variable {strict : Prop} {queued : List UInt8} {s t : Sock cap}

theorem conserved_fresh : Conserved strict [] (Sock.fresh : Sock cap) where
  stream := rfl
  shadowOk := fun sh hsh => by cases hsh
  counted := fun c hc => by simp [Sock.fresh] at hc
  workOk := fun req p hwork => by cases hwork
  calls := fun _ c hc => by simp [Sock.fresh] at hc

structure Delivers (strict : Prop) (req : Request) (bytes : List UInt8)
    (r : ExactAmount) : Prop where
  split : payload r.chain.segs ++ leftover r.shadow = bytes
  length : ((payload r.chain.segs).length : Int) = r.totalLen
  pos : 0 < r.totalLen
  le : strict → r.totalLen ≤ req.nbytes
  shadowOk : ∀ sh, r.shadow = some sh → (getFromShadow sh).WellFormed
  copied : (copyChain r.firstSegmentLen r.chain).take r.totalLen.toNat = payload r.chain.segs
  exact : strict → copyChain r.firstSegmentLen r.chain = payload r.chain.segs

theorem ReadsAmount.delivers (hr : ReadsAmount c req.tempBytes r) (hreq : strict → req.InRange)
    (hfits : strict → c.head.dataLen ≤ req.nbytes) :
    Delivers strict req (payload c.segs) r where
  split := hr.split
  length := hr.length
  pos := hr.pos
  le := fun hstrict => (hreq hstrict).tempBytes_eq ▸ hr.le
  shadowOk := hr.shadowOk
  copied := hr.copied
  exact := by
    intro hstrict
    have htemp := (hreq hstrict).tempBytes_eq
    have hfirst := hfits hstrict
    exact hr.exact (by omega)

theorem ReadsAmount.more_ok (hc : c.WellFormed)
    (hr : ReadsAmount c req.tempBytes r) (hlt : r.totalLen < req.tempBytes) :
    Purpose.Ok req (.more r) ∧ payload r.chain.segs = payload c.segs := by
  have hshadow : r.shadow = none := by
    by_contra hne
    have := hr.filled hne
    omega
  have hwhole : payload r.chain.segs = payload c.segs := by
    have hsplit := hr.split
    rw [hshadow, leftover, append_nil] at hsplit
    exact hsplit
  have hhead : c.head.WellFormed := hc c.head mem_cons_self
  have hfirst : c.head.dataLen ≤ (payload c.segs).length := by
    simp only [MbufChain.segs, payload_cons, length_append, hhead.length_data]
    omega
  have hlen := hr.length
  rw [hwhole] at hlen
  exact ⟨⟨hr.length, hr.pos, hlt, hshadow, hr.exact (by omega)⟩, hwhole⟩

theorem length_payload_pos (hc : c.WellFormed) : 0 < (payload c.segs).length := by
  have hhead : c.head.WellFormed := hc c.head mem_cons_self
  have hpos := hhead.pos
  simp only [MbufChain.segs, payload_cons, length_append, hhead.length_data]
  omega

theorem readAll_delivers (hsmall : (payload c.segs).length < 2 ^ 31)
    (hpos : 0 < (payload c.segs).length) (hcounted : c.Counted) (hreq : strict → req.InRange)
    (hall : req.tempBytes ≤ 0) : Delivers strict req (payload c.segs) (readAll c) := by
  have htotal : (readAll c).totalLen = (payload c.segs).length := by
    simp only [readAll]
    rw [hcounted, toUInt32_of_lt (by omega) (by omega)]
    exact toInt32_of_lt (by omega) (by omega)
  exact {
    split := append_nil _
    length := htotal.symm
    pos := by omega
    le := by
      intro hstrict
      have hlow := (hreq hstrict).tempBytes_pos
      omega
    shadowOk := nofun
    copied := by
      rw [htotal]
      exact take_of_length_le (Nat.le_of_eq (by
        rw [← copyChain_head c]
        rfl))
    exact := fun _ => copyChain_head c }

theorem linkAll_spec {left : MbufChain} (hleft : left.Counted) (hc : c.Counted) :
    payload (linkAll left c).segs = payload left.segs ++ payload c.segs ∧
      (linkAll left c).Counted := by
  have hbytes : payload (linkAll left c).segs = payload left.segs ++ payload c.segs := by
    simp only [linkAll, MbufChain.segs_append, payload_append]
    rfl
  refine ⟨hbytes, ?_⟩
  have hsum : (linkAll left c).head.pktLen = toUInt32 (left.head.pktLen + c.head.pktLen) := rfl
  rw [MbufChain.Counted, hbytes, hsum, hleft, hc, toUInt32_add, length_append, Int.natCast_add]

def Countable (s : Sock cap) : AppAction → Prop
  | .call req =>
    ∀ sh ∈ s.shadow, (0 < req.tempBytes → Addable (getFromShadow sh) req.tempBytes) ∧
        (req.tempBytes ≤ 0 → (getFromShadow sh).Counted ∧ (leftover (some sh)).length < 2 ^ 31)
  | .kick _ => True
  | .next =>
    match s.pc with
    | .dequeue req p =>
      ∀ c ∈ s.rxRing.items.head?, (0 < req.tempBytes → Addable c.toMbufChain req.tempBytes) ∧
          (req.tempBytes ≤ 0 → p.held.length + (payload c.segs).length < 2 ^ 31)
    | _ => True

instance (s : Sock cap) (a : AppAction) : Decidable (Countable s a) := by
  unfold Countable
  split
  · infer_instance
  · infer_instance
  · split <;> infer_instance

/-! ### The effect of each function -/

theorem useShadow_spec {sh : Shadow} (hc : (getFromShadow sh).WellFormed)
    (hr : ReadsAmount (getFromShadow sh) req.tempBytes r) (hreq : strict → req.InRange)
    (hfits : strict → (getFromShadow sh).head.dataLen ≤ req.nbytes) :
    let next := if 0 < r.totalLen ∧ r.totalLen < req.tempBytes then
        { s with shadow := r.shadow, pc := .kick req (.more r) }
      else finishData s req { r with totalLen := req.tempBytes }
    (∃ p : Purpose, p.Ok req ∧ p.held = leftover (some sh) ∧
      next = { s with shadow := none, pc := .kick req p }) ∨
    ∃ r, Delivers strict req (leftover (some sh)) r ∧
      next = finishData s req r := by
  by_cases hless : 0 < r.totalLen ∧ r.totalLen < req.tempBytes
  · obtain ⟨hok, hwhole⟩ := hr.more_ok hc hless.2
    refine Or.inl ⟨.more r, hok, hwhole, ?_⟩
    simp only [if_pos hless, hok.2.2.2.1]
  · have htotal : req.tempBytes = r.totalLen := by
      have := hr.pos
      have := hr.le
      omega
    have hsame : { r with totalLen := req.tempBytes } = r := by rw [htotal]
    refine Or.inr ⟨r, hr.delivers hreq hfits, ?_⟩
    simp only [if_neg hless, hsame]

theorem callRecv_spec (hreq : strict → req.InRange)
    (hshadow : ∀ sh, s.shadow = some sh → (getFromShadow sh).WellFormed)
    (hcount : Countable s (.call req))
    (hfits : strict → ∀ sh ∈ s.shadow, (getFromShadow sh).head.dataLen ≤ req.nbytes) :
    (∃ p : Purpose, p.Ok req ∧ p.held = leftover s.shadow ∧
      callRecv s req = { s with shadow := none, pc := .kick req p }) ∨
    ∃ r, Delivers strict req (leftover s.shadow) r ∧
      callRecv s req = finishData s req r := by
  rcases Option.eq_none_or_eq_some s.shadow with hnone | ⟨sh, hsome⟩
  · refine Or.inl ⟨.fresh, trivial, by rw [hnone]; rfl, ?_⟩
    simp only [callRecv, hnone]
  · have hc := hshadow sh hsome
    by_cases hpos : 0 < req.tempBytes
    · have hr := tryReadExactAmount_spec hc hpos ((hcount sh hsome).1 hpos)
      have hcall : callRecv s req =
          let r := tryReadExactAmount (getFromShadow sh) none req.tempBytes
          if 0 < r.totalLen ∧ r.totalLen < req.tempBytes then
            { s with shadow := r.shadow, pc := .kick req (.more r) }
          else finishData s req { r with totalLen := req.tempBytes } := by
        simp only [callRecv, hsome, if_pos hpos]
      rw [hcall, hsome]
      exact useShadow_spec hc hr hreq (fun hstrict => hfits hstrict sh hsome)
    · have hall : req.tempBytes ≤ 0 := by omega
      refine Or.inl ⟨.all (getFromShadow sh),
        ⟨hall, hc, (hcount sh hsome).2 hall⟩, by rw [hsome]; rfl, ?_⟩
      simp only [callRecv, hsome, if_neg hpos]

theorem ReadsAmount.append_delivers {left : ExactAmount}
    (hr : ReadsAmount c (req.tempBytes - left.totalLen) r) (hleft : Purpose.Ok req (.more left))
    (hreq : strict → req.InRange) :
    Delivers strict req (payload left.chain.segs ++ payload c.segs)
      { chain := left.chain.append r.chain
        shadow := r.shadow
        totalLen := left.totalLen + r.totalLen
        firstSegmentLen := left.firstSegmentLen } := by
  obtain ⟨hlen, hpos, hlt, _, hleftCopy⟩ := hleft
  have hle := hr.le
  have hrpos := hr.pos
  have hrlen := hr.length
  have hcopy : copyChain left.firstSegmentLen (left.chain.append r.chain) =
      payload left.chain.segs ++ payload r.chain.segs := by
    rw [← hleftCopy]
    simp [copyChain, MbufChain.append]
  have hpayload : payload (left.chain.append r.chain).segs =
      payload left.chain.segs ++ payload r.chain.segs := by
    simp
  exact {
    split := by simp only [hpayload, append_assoc, hr.split]
    length := by
      simp only [hpayload, length_append]
      omega
    pos := Int.add_pos hpos hrpos
    le := by
      intro hstrict
      have htemp := (hreq hstrict).tempBytes_eq
      simp only
      omega
    shadowOk := hr.shadowOk
    copied := by
      simp only [hcopy, hpayload]
      apply take_of_length_le
      simp only [length_append]
      omega
    exact := fun _ => hcopy.trans hpayload.symm }

theorem useMore_spec {left : ExactAmount} (hc : c.WellFormed) (hadd : Addable c req.tempBytes)
    (hreq : strict → req.InRange)
    (hleft : Purpose.Ok req (.more left)) (hshadow : s.shadow = none) :
    ∃ r, Delivers strict req (payload left.chain.segs ++ payload c.segs) r ∧
      useChain s req (.more left) c = finishData s req r := by
  have hmax := req.tempBytes_lt
  have hpos := hleft.2.1
  have hlt := hleft.2.2.1
  have hrest : toInt32 (req.tempBytes - left.totalLen) =
      req.tempBytes - left.totalLen := toInt32_of_lt (by omega) (by omega)
  have hr := tryReadExactAmount_spec hc
    (by omega : 0 < req.tempBytes - left.totalLen) (hadd.mono (by omega))
  have hle := hr.le
  have hrpos := hr.pos
  have hsum := toInt32_of_lt (Int.le_of_lt (Int.add_pos hpos hrpos)) (by omega)
  refine ⟨_, hr.append_delivers hleft hreq, ?_⟩
  simp only [useChain, hshadow, hrest, hsum]

theorem useAll_spec {left : MbufChain} (hcounted : c.Counted)
    (hreq : strict → req.InRange) (hleft : Purpose.Ok req (.all left))
    (hsmall : (payload left.segs).length + (payload c.segs).length < 2 ^ 31) :
    ∃ r, Delivers strict req (payload left.segs ++ payload c.segs) r ∧
      useChain s req (.all left) c = finishData s req r := by
  obtain ⟨hall, hleft, hleftCounted, _⟩ := hleft
  obtain ⟨hbytes, hlinked⟩ := linkAll_spec hleftCounted hcounted
  have hlen : (payload (linkAll left c).segs).length =
      (payload left.segs).length + (payload c.segs).length := by
    rw [hbytes, length_append]
  have hpos := length_payload_pos hleft
  have hr := readAll_delivers (by omega) (by omega) hlinked hreq hall
  rw [hbytes] at hr
  refine ⟨_, hr, ?_⟩
  simp only [useChain]

theorem useChain_spec (hc : c.WellFormed) (hadd : 0 < req.tempBytes → Addable c req.tempBytes)
    (hcounted : req.tempBytes ≤ 0 → c.Counted ∧ p.held.length + (payload c.segs).length < 2 ^ 31)
    (hreq : strict → req.InRange) (hp : p.Ok req) (hshadow : s.shadow = none)
    (hfits : strict → p = .fresh → c.head.dataLen ≤ req.nbytes) :
    ∃ r, Delivers strict req (p.held ++ payload c.segs) r ∧
      useChain s req p c = finishData s req r := by
  cases p with
  | fresh =>
    by_cases hpos : 0 < req.tempBytes
    · have hr := tryReadExactAmount_spec hc hpos (hadd hpos)
      refine ⟨_, hr.delivers hreq (fun hstrict => hfits hstrict rfl), ?_⟩
      simp only [useChain, hshadow, if_pos hpos]
    · have hall : req.tempBytes ≤ 0 := by omega
      obtain ⟨hright, hsmall⟩ := hcounted hall
      refine ⟨_, readAll_delivers (by simpa [Purpose.held] using hsmall)
        (length_payload_pos hc) hright hreq hall, ?_⟩
      simp only [useChain, if_neg hpos]
  | more left =>
    have hpos : 0 < req.tempBytes := Int.lt_trans hp.2.1 hp.2.2.1
    exact useMore_spec hc (hadd hpos) hreq hp hshadow
  | all left =>
    obtain ⟨hright, hsmall⟩ := hcounted hp.1
    exact useAll_spec hright hreq hp hsmall

theorem noChain_spec (s : Sock cap) (hreq : strict → req.InRange) (hp : p.Ok req) :
    (p = .fresh ∧ noChain s req p = { s with pc := .lastCache req }) ∨
    ∃ r, Delivers strict req p.held r ∧ noChain s req p = finishData s req r := by
  cases p with
  | fresh => exact Or.inl ⟨rfl, rfl⟩
  | more left =>
    obtain ⟨hlen, hpos, hlt, hshadow, hcopy⟩ := hp
    refine Or.inr ⟨left, ⟨?_, hlen, hpos, ?_, ?_, ?_, ?_⟩, rfl⟩
    · rw [hshadow, leftover, append_nil]
      rfl
    · intro hstrict
      have htemp := (hreq hstrict).tempBytes_eq
      omega
    · simp [hshadow]
    · rw [hcopy]
      exact take_of_length_le (by omega)
    · exact fun _ => hcopy
  | all left =>
    obtain ⟨hall, hleft, hcounted, hsmall⟩ := hp
    refine Or.inr ⟨_, readAll_delivers hsmall (length_payload_pos hleft) hcounted hreq hall, ?_⟩
    simp only [noChain]

/-! ### The effect of a step -/

/-- A step moves within a call, starts one with the leftover in hand, hands out data with `taken`
from the ring, or returns without data; 0 needs the close signal at the last look. -/
inductive AppMove (strict : Prop) (s : Sock cap) : Sock cap → Prop
  | moved (pc : RecvPc) (rxKicks : Nat) (hwork : pc.work = s.pc.work)
      (hlast : ∀ req, pc = .lastSignal req → s.rxRing.items = []) :
      AppMove strict s { s with pc := pc, rxKicks := rxKicks }
  | started (req : Request) (p : Purpose) (hidle : s.pc = .idle)
      (hreq : strict → req.InRange) (hp : p.Ok req) (hheld : p.held = leftover s.shadow) :
      AppMove strict s { s with shadow := none, pc := .kick req p }
  | delivered (req : Request) (r : ExactAmount) (ring : Ring RxChain cap) (taken : List UInt8)
      (hr : Delivers strict req (s.pc.held ++ (leftover s.shadow ++ taken)) r)
      (hring : ringBytes s.rxRing = taken ++ ringBytes ring)
      (hsuffix : ring.items <:+ s.rxRing.items) :
      AppMove strict s (finishData { s with rxRing := ring } req r)
  | emptied (req : Request) (ret : Int) (hwork : s.pc.work = some (req, .fresh))
      (hret : ret < 0 ∨ ret = 0 ∧ 3 ≤ s.signal ∧ s.pc = .lastSignal req) :
      AppMove strict s (finishEmpty s req ret)

theorem ringBytes_of_dequeue {ring' : Ring RxChain cap} {c : RxChain}
    (hdeq : ring.dequeue = some (c, ring')) :
    ringBytes ring = payload c.segs ++ ringBytes ring' := by
  have hitems := Ring.dequeue_eq_some_iff.mp hdeq
  simp [ringBytes, hitems]

theorem ringBytes_of_enqueue {ring' : Ring RxChain cap} {c : RxChain}
    (henq : ring.enqueue c = some ring') : ringBytes ring' = ringBytes ring ++ payload c.segs := by
  have hitems := (Ring.enqueue_eq_some_iff.mp henq).2
  simp [ringBytes, hitems]

def FirstFits (s : Sock cap) : AppAction → Prop
  | .call req => ∀ sh ∈ s.shadow, (getFromShadow sh).head.dataLen ≤ req.nbytes
  | .kick _ => True
  | .next =>
    match s.pc with
    | .dequeue req .fresh => ∀ c ∈ s.rxRing.items.head?, c.head.dataLen ≤ req.nbytes
    | _ => True

instance (s : Sock cap) (a : AppAction) : Decidable (FirstFits s a) := by
  unfold FirstFits
  split
  · infer_instance
  · infer_instance
  · split <;> infer_instance

section

variable (hs : Conserved strict queued s)

include hs

theorem callRecv_appMove (hidle : s.pc = .idle) (hreq : strict → req.InRange)
    (hcount : Countable s (.call req)) (hfits : strict → FirstFits s (.call req)) :
    AppMove strict s (callRecv s req) := by
  rcases callRecv_spec hreq hs.shadowOk hcount hfits with
    ⟨p, hp, hheld, hcall⟩ | ⟨r, hr, hcall⟩
  · rw [hcall]
    exact .started req p hidle hreq hp hheld
  · rw [hcall]
    refine .delivered req r s.rxRing [] ?_ rfl suffix_rfl
    rw [hidle, append_nil]
    exact hr

theorem noChain_appMove (hwork : s.pc.work = some (req, p)) :
    AppMove strict s (noChain s req p) := by
  obtain ⟨hreq, hp, hshadow⟩ := hs.workOk req p hwork
  rcases noChain_spec s hreq hp with ⟨rfl, hno⟩ | ⟨r, hr, hno⟩
  · rw [hno]
    exact .moved _ s.rxKicks hwork.symm (fun _ h => by cases h)
  · rw [hno]
    refine .delivered req r s.rxRing [] ?_ rfl suffix_rfl
    have hheld : s.pc.held = p.held := by simp only [RecvPc.held, hwork]
    rw [hshadow, hheld, leftover, append_nil, append_nil]
    exact hr

theorem dequeue_appMove {c : RxChain} (hpc : s.pc = .dequeue req p)
    (hdeq : s.rxRing.dequeue = some (c, ring)) (hcount : Countable s .next)
    (hfits : strict → FirstFits s .next) :
    AppMove strict s (useChain { s with rxRing := ring } req p c.toMbufChain) := by
  have hwork : s.pc.work = some (req, p) := by rw [hpc]; rfl
  have hheld : s.pc.held = p.held := by simp only [RecvPc.held, hwork]
  have hitems := Ring.dequeue_eq_some_iff.mp hdeq
  obtain ⟨hreq, hp, hshadow⟩ := hs.workOk req p hwork
  have hfirst : strict → p = .fresh → c.head.dataLen ≤ req.nbytes := by
    intro hstrict hfresh
    have hfirst := hfits hstrict
    simp only [FirstFits, hpc, hfresh, hitems] at hfirst
    exact hfirst c rfl
  simp only [Countable, hpc, hitems] at hcount
  obtain ⟨hadd, hsmall⟩ := hcount c rfl
  have hcounted : req.tempBytes ≤ 0 →
      c.Counted ∧ p.held.length + (payload c.segs).length < 2 ^ 31 := by
    intro hall
    refine ⟨?_, hsmall hall⟩
    rcases hs.counted c (by simp [hitems]) with hstrict | hright
    · have hlow := (hreq hstrict).tempBytes_pos
      omega
    · exact hright
  obtain ⟨r, hr, huse⟩ := useChain_spec (s := { s with rxRing := ring })
    c.wellFormed hadd hcounted hreq hp hshadow hfirst
  rw [huse]
  refine .delivered req r ring (payload c.segs) ?_ (ringBytes_of_dequeue hdeq) ?_
  · rw [hshadow, hheld, leftover, nil_append]
    exact hr
  · rw [hitems]
    exact suffix_cons c ring.items

theorem appNext_appMove (hcount : Countable s .next) (hfits : strict → FirstFits s .next)
    (hstep : appNext s = some t) : AppMove strict s t := by
  unfold appNext at hstep
  split at hstep
  case h_1 req p hpc =>
    split at hstep <;> cases hstep <;>
      exact .moved _ s.rxKicks (by rw [hpc]; rfl) (fun _ h => by cases h)
  case h_2 req p hpc =>
    split at hstep <;> cases hstep <;>
      exact .moved _ s.rxKicks (by rw [hpc]; rfl) (fun _ h => by cases h)
  case h_3 req p hpc =>
    have hwork : s.pc.work = some (req, p) := by rw [hpc]; rfl
    split at hstep
    · split at hstep
      · cases hstep
        exact .moved _ s.rxKicks hwork.symm (fun _ h => by cases h)
      · cases hstep
        exact noChain_appMove hs hwork
    · cases hstep
      exact .moved _ s.rxKicks hwork.symm (fun _ h => by cases h)
  case h_4 req p hpc =>
    split at hstep
    · rename_i c ring hdeq
      cases hstep
      exact dequeue_appMove hs hpc hdeq hcount hfits
    · cases hstep
      exact noChain_appMove hs (by rw [hpc]; rfl)
  case h_5 req hpc =>
    have hwork : s.pc.work = some (req, .fresh) := by rw [hpc]; rfl
    split at hstep
    · cases hstep
      exact .moved _ s.rxKicks hwork.symm (fun _ h => by cases h)
    · cases hstep
      exact .emptied req (-1) hwork (Or.inl (by decide))
  case h_6 req hpc =>
    have hwork : s.pc.work = some (req, .fresh) := by rw [hpc]; rfl
    split at hstep
    · rename_i hempty
      cases hstep
      exact .moved _ s.rxKicks hwork.symm (fun _ _ => hempty)
    · cases hstep
      exact .emptied req (-1) hwork (Or.inl (by decide))
  case h_7 req hpc =>
    have hwork : s.pc.work = some (req, .fresh) := by rw [hpc]; rfl
    split at hstep
    · rename_i hsignal
      cases hstep
      exact .emptied req 0 hwork (Or.inr ⟨rfl, hsignal, hpc⟩)
    · cases hstep
      exact .emptied req (-1) hwork (Or.inl (by decide))
  case h_8 => cases hstep

theorem appStep_appMove {a : AppAction} (hrange : strict → ∀ req, a = .call req → req.InRange)
    (hcount : Countable s a) (hfits : strict → FirstFits s a) (hstep : appStep s a = some t) :
    AppMove strict s t := by
  cases a with
  | call req =>
    simp only [appStep] at hstep
    split at hstep
    · rename_i hidle
      cases hstep
      exact callRecv_appMove hs hidle (fun hstrict => hrange hstrict req rfl) hcount hfits
    · cases hstep
  | kick sent =>
    simp only [appStep] at hstep
    split at hstep
    · rename_i req p hpc
      cases hstep
      exact .moved _ _ (by rw [hpc]; rfl) (fun _ h => by cases h)
    · cases hstep
  | next => exact appNext_appMove hs hcount hfits hstep

end

theorem Conserved.congr (hs : Conserved strict queued s) (hring : t.rxRing = s.rxRing)
    (hshadow : t.shadow = s.shadow) (hcalls : t.calls = s.calls) (hwork : t.pc.work = s.pc.work) :
    Conserved strict queued t where
  stream := by
    have hheld : t.pc.held = s.pc.held := by simp only [RecvPc.held, hwork]
    rw [hring, hshadow, hcalls, hheld]
    exact hs.stream
  shadowOk := by rw [hshadow]; exact hs.shadowOk
  counted := by rw [hring]; exact hs.counted
  workOk := by rw [hwork, hshadow]; exact hs.workOk
  calls := by rw [hcalls]; exact hs.calls

theorem returnedBytes_append (calls calls' : List Call) : returnedBytes (calls ++ calls') =
      returnedBytes calls ++ returnedBytes calls' := by
  simp [returnedBytes]

theorem Conserved.finishData (hs : Conserved strict queued s) {taken : List UInt8}
    (hr : Delivers strict req (s.pc.held ++ (leftover s.shadow ++ taken)) r)
    (hring : ringBytes s.rxRing = taken ++ ringBytes ring)
    (hsuffix : ring.items <:+ s.rxRing.items) :
    Conserved strict queued (finishData { s with rxRing := ring } req r) where
  stream := by
    have hnew : returnedBytes [⟨req.nbytes, r.totalLen,
        copyChain r.firstSegmentLen r.chain⟩] = payload r.chain.segs := by
      simp only [returnedBytes, flatMap_singleton, Call.returned, hr.copied]
    have hstream : returnedBytes s.calls ++ (payload r.chain.segs ++
        (leftover r.shadow ++ ringBytes ring)) = queued := by
      rw [← append_assoc (payload _), hr.split, ← hs.stream, hring]
      simp only [append_assoc]
    simp only [Recv.finishData, if_pos hr.pos, returnedBytes_append, hnew,
      RecvPc.held, RecvPc.work, nil_append, append_assoc]
    exact hstream
  shadowOk := hr.shadowOk
  counted := fun c hc => hs.counted c (hsuffix.subset hc)
  workOk := fun req' p hwork => by cases hwork
  calls := by
    intro hstrict c hc
    rcases mem_append.mp hc with hc | hc
    · exact hs.calls hstrict c hc
    · rw [mem_singleton.mp hc]
      intro _
      rw [if_pos hr.pos, hr.exact hstrict]
      exact ⟨hr.length, hr.le hstrict⟩

theorem Conserved.finishEmpty (hs : Conserved strict queued s)
    (hwork : s.pc.work = some (req, .fresh)) {ret : Int} (hret : ret ≤ 0) :
    Conserved strict queued (finishEmpty s req ret) where
  stream := by
    have hheld : s.pc.held = [] := by simp only [RecvPc.held, hwork, Purpose.held]
    have hnew : returnedBytes [⟨req.nbytes, ret, []⟩] = [] := by simp [returnedBytes, Call.returned]
    have hstream := hs.stream
    rw [hheld] at hstream
    simp only [Recv.finishEmpty, returnedBytes_append, hnew, append_nil]
    exact hstream
  shadowOk := hs.shadowOk
  counted := hs.counted
  workOk := fun req' p hidle => by cases hidle
  calls := by
    intro hstrict c hc
    rcases mem_append.mp hc with hc | hc
    · exact hs.calls hstrict c hc
    · rw [mem_singleton.mp hc]
      intro hpos
      exact absurd hpos (by simpa using hret)

theorem AppMove.conserved (hmove : AppMove strict s t)
    (hs : Conserved strict queued s) : Conserved strict queued t := by
  cases hmove with
  | moved pc rxKicks hwork hlast => exact hs.congr rfl rfl rfl hwork
  | started req p hidle hreq hp hheld =>
    exact {
      stream := by
        have hstream := hs.stream
        rw [hidle, ← hheld] at hstream
        exact hstream
      shadowOk := fun sh hsh => by cases hsh
      counted := hs.counted
      workOk := by
        intro req' p' hwork
        cases hwork
        exact ⟨hreq, hp, rfl⟩
      calls := hs.calls }
  | delivered req r ring taken hr hring hsuffix => exact hs.finishData hr hring hsuffix
  | emptied req ret hwork hret => exact hs.finishEmpty hwork (by omega)

theorem Conserved.enqueue (hs : Conserved strict queued s) {c : RxChain}
    (hcounted : strict ∨ c.Counted) (henq : s.rxRing.enqueue c = some ring)
    (hring : t.rxRing = ring) (hshadow : t.shadow = s.shadow) (hcalls : t.calls = s.calls)
    (hpc : t.pc = s.pc) :
    Conserved strict (queued ++ payload c.segs) t where
  stream := by
    rw [hring, hshadow, hcalls, hpc, ringBytes_of_enqueue henq, ← hs.stream]
    simp
  shadowOk := by rw [hshadow]; exact hs.shadowOk
  counted := by
    have hitems := (Ring.enqueue_eq_some_iff.mp henq).2
    intro c' hc'
    rw [hring, hitems] at hc'
    rcases mem_append.mp hc' with hold | hnew
    · exact hs.counted c' hold
    · rw [mem_singleton.mp hnew]
      exact hcounted
  workOk := by rw [hpc, hshadow]; exact hs.workOk
  calls := by rw [hcalls]; exact hs.calls

structure State (cap : Nat) where
  sock : Sock cap
  queued : List UInt8

inductive Action where
  | app (a : AppAction)
  | arrive (c : RxChain)
  | setSignal (signal : Nat)

def step (s : State cap) : Action → Option (State cap)
  | .app a => (appStep s.sock a).map fun sock => { s with sock := sock }
  | .arrive c => (s.sock.rxRing.enqueue c).map fun ring =>
    { sock := { s.sock with rxRing := ring }
      queued := s.queued ++ payload c.segs }
  | .setSignal signal => some { s with sock := { s.sock with signal := signal } }

def recvSystem (cap : Nat) : TransitionSystem (State cap) Action where
  init s := s = ⟨Sock.fresh, []⟩
  step := step

def InRange (_ : State cap) : Action → Prop
  | .app (.call req) => req.InRange
  | _ => True

instance (s : State cap) (a : Action) : Decidable (InRange s a) := by
  unfold InRange
  split <;> infer_instance

def FirstSegmentFits (s : State cap) (a : Action) : Prop :=
  InRange s a ∧
    match a with
    | .app a => FirstFits s.sock a ∧ Countable s.sock a
    | _ => True

instance (s : State cap) (a : Action) : Decidable (FirstSegmentFits s a) := by
  unfold FirstSegmentFits
  split <;> infer_instance

def Kept (s : State cap) : Prop := Conserved True s.queued s.sock

theorem step_kept {s t : State cap} {a : Action} (hs : Kept s)
    (hguard : FirstSegmentFits s a) (hstep : step s a = some t) : Kept t := by
  cases a with
  | app a =>
    obtain ⟨sock, hsock, rfl⟩ := Option.map_eq_some_iff.mp hstep
    have hrange : ∀ req, a = .call req → req.InRange := by
      intro req hcall
      rw [hcall] at hguard
      exact hguard.1
    have hmove := appStep_appMove hs (fun _ => hrange) hguard.2.2 (fun _ => hguard.2.1) hsock
    exact hmove.conserved hs
  | arrive c =>
    obtain ⟨ring, hring, rfl⟩ := Option.map_eq_some_iff.mp hstep
    exact Conserved.enqueue hs (Or.inl trivial) hring rfl rfl rfl rfl
  | setSignal signal =>
    cases hstep
    exact Conserved.congr hs rfl rfl rfl rfl

/-- If no call finds a first segment longer than its request, every call writes exactly the bytes it
returns, a prefix of the bytes queued, and the rest is the leftover followed by the ring. -/
theorem recv_stream_exact {s : State cap}
    (hreach : (recvSystem cap).ReachableUnder FirstSegmentFits s) :
    (∀ c ∈ s.sock.calls, c.Exact) ∧
      returnedBytes s.sock.calls <+: s.queued ∧
      (s.sock.pc = .idle → returnedBytes s.sock.calls ++
          (leftover s.sock.shadow ++ ringBytes s.sock.rxRing) = s.queued) := by
  have hs : Kept s := by
    refine hreach.invariant ?_ ?_
    · intro s hinit
      rw [hinit]
      exact conserved_fresh
    · intro s a t hs hguard hstep
      exact step_kept hs hguard hstep
  refine ⟨hs.calls trivial, ⟨_, hs.stream⟩, ?_⟩
  intro hidle
  have hstream := hs.stream
  rw [hidle] at hstream
  exact hstream

def filledMbuf (bytes : List UInt8) : Mbuf := ⟨bytes, 0, bytes.length, bytes.length⟩

def twoChains : List Action :=
  [.arrive ⟨⟨filledMbuf [1, 2], [filledMbuf [3, 4, 5]]⟩, by decide⟩,
    .arrive ⟨⟨filledMbuf [6, 7], []⟩, by decide⟩]

def recvCall (nbytes : Nat) : List Action :=
  [.app (.call ⟨nbytes, false⟩), .app (.kick true), .app .next, .app .next]

theorem recv_stream_exact_twoChains : ∃ s : State 1023,
      ((recvSystem 1023).ReachableUnder FirstSegmentFits s ∧
        s.sock.calls = [⟨4, 4, [1, 2, 3, 4]⟩, ⟨3, 3, [5, 6, 7]⟩]) ∧
      (∀ c ∈ s.sock.calls, c.Exact) ∧
      returnedBytes s.sock.calls <+: s.queued := by
  obtain ⟨s, hreach, hcalls⟩ :=
    (recvSystem 1023).exists_reachableUnder FirstSegmentFits
      ⟨Sock.fresh, []⟩ (twoChains ++ recvCall 4 ++ recvCall 3)
      (P := fun s => s.sock.calls = [⟨4, 4, [1, 2, 3, 4]⟩, ⟨3, 3, [5, 6, 7]⟩])
      rfl (by decide)
  obtain ⟨hexact, hpre, _⟩ := recv_stream_exact hreach
  exact ⟨s, ⟨hreach, hcalls⟩, hexact, hpre⟩

theorem recv_overruns_short_request : ∃ s : State 1023, (recvSystem 1023).ReachableUnder InRange s ∧
      s.sock.calls = [⟨1, 1, [1, 2]⟩] ∧
      ¬ ∀ c ∈ s.sock.calls, c.Exact := by
  obtain ⟨s, hreach, hcalls⟩ :=
    (recvSystem 1023).exists_reachableUnder InRange
      ⟨Sock.fresh, []⟩ (twoChains ++ recvCall 1)
      (P := fun s => s.sock.calls = [⟨1, 1, [1, 2]⟩]) rfl (by decide)
  refine ⟨s, hreach, hcalls, ?_⟩
  rw [hcalls]
  decide

end LightStack.Rx.Recv
