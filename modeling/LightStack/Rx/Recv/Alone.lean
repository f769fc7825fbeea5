import LightStack.Rx.Recv.Stream

/-!
# `light_recv` while nothing arrives
-/

namespace LightStack.Rx.Recv

open Lib List

variable {cap : Nat}

def recvNow (s : Sock cap) (req : Request) : Option (Sock cap) :=
  let s := callRecv s req
  match s.pc with
  | .kick req p =>
    match s.rxRing.dequeue with
    | some (c, ring) => some (useChain { s with rxRing := ring } req p c.toMbufChain)
    | none =>
      if s.signal < 3 ∧ p.blocks req then none
      else
        match p with
        | .fresh => some (finishEmpty s req (if 3 ≤ s.signal then 0 else -1))
        | _ => some (noChain s req p)
  | _ => some s

variable {s t : Sock cap} {req : Request}

/-- A step of a call of `light_recv` that has begun, with its kick already pending. -/
def CallStep (s t : Sock cap) : Prop := ∃ a ∈ [AppAction.kick false, .next], appStep s a = some t

theorem useChain_pc (s : Sock cap) (req : Request) (p : Purpose) (c : MbufChain) (pc : RecvPc) :
    useChain { s with pc := pc } req p c = useChain s req p c := by
  cases p with
  | fresh | more | all => rfl

theorem noChain_pc (s : Sock cap) (req : Request) (p : Purpose) (pc : RecvPc) :
    noChain { s with pc := pc } req p = noChain s req p := by
  cases p with
  | fresh | more | all => rfl

theorem exists_useChain_eq (s : Sock cap) (req : Request) (p : Purpose) (c : MbufChain) :
    ∃ r, useChain s req p c = finishData s req r := by
  cases p with
  | fresh =>
    by_cases hbytes : 0 < req.tempBytes
    · exact ⟨tryReadExactAmount c s.shadow req.tempBytes, by simp only [useChain, if_pos hbytes]⟩
    · exact ⟨readAll c, by simp only [useChain, if_neg hbytes]⟩
  | more left => exact ⟨_, rfl⟩
  | all left => exact ⟨_, rfl⟩

def Returned (s : Sock cap) (req : Request) (t : Sock cap) : Prop :=
  t.pc = .idle ∧ ∃ ret written, t.calls = s.calls ++ [⟨req.nbytes, ret, written⟩]

theorem callRecv_cases (s : Sock cap) (req : Request) :
    Returned s req (callRecv s req) ∨
      (∃ p, (callRecv s req).pc = .kick req p) ∧ (callRecv s req).calls = s.calls := by
  unfold callRecv
  split
  · exact .inr ⟨⟨_, rfl⟩, rfl⟩
  · dsimp only
    split
    · split
      · exact .inr ⟨⟨_, rfl⟩, rfl⟩
      · exact .inl ⟨rfl, _, _, rfl⟩
    · exact .inr ⟨⟨_, rfl⟩, rfl⟩

theorem recvNow_returned (hcall : recvNow s req = some t) : Returned s req t := by
  unfold recvNow at hcall
  dsimp only at hcall
  obtain hdone | ⟨⟨p, hpc⟩, hcalls⟩ := callRecv_cases s req
  · rw [hdone.1] at hcall
    exact Option.some.inj hcall ▸ hdone
  · rw [hpc] at hcall
    generalize callRecv s req = u at hcall hcalls
    dsimp only at hcall
    split at hcall
    · rename_i c ring hdeq
      obtain ⟨r, hr⟩ :=
        exists_useChain_eq { u with rxRing := ring, pc := .kick req p } req p c.toMbufChain
      rw [hr] at hcall
      cases hcall
      exact ⟨rfl, _, _, by rw [finishData, hcalls]⟩
    · split at hcall
      · cases hcall
      · cases p with
        | fresh =>
          cases hcall
          exact ⟨rfl, _, _, by rw [finishEmpty, hcalls]⟩
        | more left | all left =>
          cases hcall
          exact ⟨rfl, _, _, by rw [noChain, finishData, hcalls]⟩

/-- While nothing arrives a call of `light_recv` that returns is the run of the steps of the
application that begins with the call: it comes back with one more call answered, the request's. -/
theorem recvNow_eq_run (hidle : s.pc = .idle) (hcall : recvNow s req = some t) :
    ∃ u, appStep s (.call req) = some u ∧ Relation.ReflTransGen CallStep u t ∧
      t.pc = .idle ∧ ∃ ret written, t.calls = s.calls ++ [⟨req.nbytes, ret, written⟩] := by
  refine ⟨callRecv s req, by simp [appStep, hidle], ?_, recvNow_returned hcall⟩
  unfold recvNow at hcall
  generalize callRecv s req = u at hcall
  dsimp only at hcall
  split at hcall
  · rename_i req' p hpc
    have hkick : CallStep u { u with pc := .testCache req' p } :=
      ⟨.kick false, by simp, by simp [appStep, hpc]⟩
    have hnext : ∀ {v w : Sock cap}, appNext v = some w → CallStep v w :=
      fun hnext => ⟨.next, by simp, hnext⟩
    refine .head hkick ?_
    split at hcall
    · rename_i c ring hdeq
      have hitems := Ring.dequeue_eq_some_iff.mp hdeq
      cases hcall
      refine .head (b := { u with pc := .dequeue req' p }) (hnext ?_) (.single (hnext ?_))
      · simp [appNext, hitems]
      · simp only [appNext, hdeq]
        rw [← useChain_pc _ req' p _ u.pc]
    · rename_i hdeq
      have hitems := Ring.dequeue_eq_none_iff.mp hdeq
      -- without data both outcomes of the test of the signal lead to `noChain`
      have hno : ¬ (u.signal < 3 ∧ p.blocks req') →
          Relation.ReflTransGen CallStep { u with pc := .testCache req' p } (noChain u req' p) := by
        intro hends
        refine .head (b := { u with pc := .testRing req' p }) (hnext (by simp [appNext, hitems])) ?_
        refine .head (b := { u with pc := .testSignal req' p })
          (hnext (by simp [appNext, hitems])) ?_
        by_cases hsignal : u.signal < 3
        · have hgoes : p.blocks req' = false := by simpa [hsignal] using hends
          exact .single (hnext (by simp [appNext, hsignal, hgoes, noChain_pc]))
        · refine .head (b := { u with pc := .dequeue req' p })
            (hnext (by simp [appNext, hsignal])) ?_
          exact .single (hnext (by simp [appNext, hdeq, noChain_pc]))
      split at hcall
      · cases hcall
      · rename_i hends
        refine .trans (hno hends) ?_
        split at hcall
        · cases hcall
          refine .head (b := { u with pc := .lastRing req' })
            (hnext (by simp [appNext, noChain, hitems])) ?_
          refine .head (b := { u with pc := .lastSignal req' })
            (hnext (by simp [appNext, hitems])) ?_
          refine .single (hnext ?_)
          simp only [appNext]
          split <;> rfl
        · cases hcall
          exact .refl
  · cases hcall
    exact .refl

/-- Two bytes received in one mbuf, not yet taken. -/
def twoQueued : Sock 4 :=
  { (Sock.fresh : Sock 4) with rxRing := ⟨[⟨⟨filledMbuf [3, 4], []⟩, by decide⟩], by simp⟩ }

theorem recvNow_eq_run_two_bytes : ∃ t u, recvNow twoQueued ⟨2, false⟩ = some t ∧
    t.calls = [⟨2, 2, [3, 4]⟩] ∧ t.rxRing.items = [] ∧
    appStep twoQueued (.call ⟨2, false⟩) = some u ∧ Relation.ReflTransGen CallStep u t := by
  obtain ⟨t, hcall, hcalls, hring⟩ : ∃ t, recvNow twoQueued ⟨2, false⟩ = some t ∧
      t.calls = [⟨2, 2, [3, 4]⟩] ∧ t.rxRing.items = [] := ⟨_, rfl, by decide, rfl⟩
  obtain ⟨u, hbegin, hrun, -⟩ := recvNow_eq_run rfl hcall
  exact ⟨t, u, hcall, hcalls, hring, hbegin, hrun⟩

structure Ready (s : Sock cap) : Prop where
  idle : s.pc = .idle
  shadowOk : ∀ sh, s.shadow = some sh → (getFromShadow sh).WellFormed
  counted : ∀ c ∈ s.rxRing.items, c.Counted

def available (s : Sock cap) : List UInt8 := leftover s.shadow ++ ringBytes s.rxRing

def firstLen (s : Sock cap) : Nat :=
  match s.shadow with
  | some sh => (getFromShadow sh).head.dataLen
  | none => (s.rxRing.items.head?.map fun c => c.head.dataLen).getD 0

theorem Ready.shadow_eq_none (hs : Ready s) (hleft : leftover s.shadow = []) : s.shadow = none := by
  cases hshadow : s.shadow with
  | none => rfl
  | some sh =>
    have hpos := length_payload_pos (hs.shadowOk sh hshadow)
    rw [hshadow, leftover] at hleft
    simp [hleft] at hpos

theorem Ready.available_eq_nil_iff (hs : Ready s) :
    available s = [] ↔ s.shadow = none ∧ s.rxRing.items = [] := by
  constructor
  · intro hempty
    obtain ⟨hleft, hring⟩ := append_eq_nil_iff.mp hempty
    refine ⟨hs.shadow_eq_none hleft, ?_⟩
    by_contra hne
    obtain ⟨c, hc⟩ := exists_mem_of_ne_nil _ hne
    have hpos := length_payload_pos c.wellFormed
    have hnil := flatMap_eq_nil_iff.mp hring c hc
    simp [hnil] at hpos
  · rintro ⟨hshadow, hring⟩
    simp [available, hshadow, leftover, ringBytes, hring]

theorem recvNow_of_empty (hs : Ready s) (hempty : available s = []) :
    recvNow s req = if s.signal < 3 ∧ req.isNonblock = false then none
      else some (finishEmpty s req (if 3 ≤ s.signal then 0 else -1)) := by
  obtain ⟨hshadow, hring⟩ := hs.available_eq_nil_iff.mp hempty
  have hdeq := Ring.dequeue_eq_none_iff.mpr hring
  simp only [recvNow, callRecv, hshadow, hdeq, Purpose.blocks, Bool.not_eq_true', finishEmpty]

theorem recvNow_of_available (strict : Prop) (req : Request) (hs : Ready s)
    (hdata : available s ≠ []) (hsmall : (available s).length < 2 ^ 31)
    (hreq : strict → req.InRange) (hfits : strict → firstLen s ≤ req.nbytes)
    (hleft : req.tempBytes ≤ 0 → ∀ sh ∈ s.shadow, (getFromShadow sh).Counted) :
    ∃ r ring bytes, recvNow s req = some (finishData { s with rxRing := ring } req r) ∧
      Delivers strict req bytes r ∧ bytes ++ ringBytes ring = available s ∧
      ring.items <:+ s.rxRing.items := by
  have hparts : (leftover s.shadow).length + (ringBytes s.rxRing).length < 2 ^ 31 := by
    simpa [available] using hsmall
  have hcount : Countable s (.call req) := by
    intro sh hsh
    have hlength : (leftover (some sh)).length < 2 ^ 31 := by
      rw [← Option.mem_def.mp hsh]
      omega
    exact ⟨fun _ => .inr hlength, fun hall => ⟨hleft hall sh hsh, hlength⟩⟩
  have hfirst : strict → ∀ sh ∈ s.shadow, (getFromShadow sh).head.dataLen ≤ req.nbytes := by
    intro hstrict sh hsh
    simpa [firstLen, Option.mem_def.mp hsh] using hfits hstrict
  rcases callRecv_spec hreq hs.shadowOk hcount hfirst with ⟨p, hp, hheld, hcall⟩ | ⟨r, hr, hcall⟩
  · have hfresh : p = .fresh → s.shadow = none := by
      rintro rfl
      exact hs.shadow_eq_none hheld.symm
    cases hdeq : s.rxRing.dequeue with
    | some x =>
      obtain ⟨c, ring⟩ := x
      have hbytes := ringBytes_of_dequeue hdeq
      have hitems := Ring.dequeue_eq_some_iff.mp hdeq
      have hchain : p.held.length + (payload c.segs).length < 2 ^ 31 := by
        rw [hheld]
        simp only [hbytes, length_append] at hparts
        omega
      obtain ⟨r, hr, huse⟩ := useChain_spec
        (s := { s with rxRing := ring, shadow := none, pc := .kick req p }) c.wellFormed
        (fun _ => .inr (by omega)) (fun _ => ⟨hs.counted c (by simp [hitems]), hchain⟩) hreq hp rfl
        (fun hstrict hp => by simpa [firstLen, hfresh hp, hitems] using hfits hstrict)
      refine ⟨r, ring, _, ?_, hr, ?_, ?_⟩
      · simp only [recvNow, hcall, hdeq, huse]
        rfl
      · rw [available, hbytes, hheld, append_assoc]
      · rw [hitems]
        exact suffix_cons c ring.items
    | none =>
      have hitems := Ring.dequeue_eq_none_iff.mp hdeq
      have hsome : p ≠ .fresh :=
        fun hp => hdata (hs.available_eq_nil_iff.mpr ⟨hfresh hp, hitems⟩)
      obtain ⟨rfl, -⟩ | ⟨r, hr, hno⟩ :=
        noChain_spec { s with shadow := none, pc := .kick req p } hreq hp
      · exact absurd rfl hsome
      refine ⟨r, s.rxRing, _, ?_, hr, ?_, suffix_rfl⟩
      · cases p with
        | fresh => exact absurd rfl hsome
        | more | all =>
          simp only [recvNow, hcall, hdeq, Purpose.blocks, Bool.false_eq_true, and_false, if_false,
            hno]
          rfl
      · rw [available, hheld]
  · refine ⟨r, s.rxRing, _, ?_, hr, rfl, suffix_rfl⟩
    rw [recvNow, hcall]
    rfl

theorem Ready.finishData {strict : Prop} {bytes : List UInt8} {r : ExactAmount}
    {ring : Ring RxChain cap} (hs : Ready s) (hr : Delivers strict req bytes r)
    (hsuffix : ring.items <:+ s.rxRing.items) :
    Ready (Recv.finishData { s with rxRing := ring } req r) where
  idle := rfl
  shadowOk := hr.shadowOk
  counted := fun c hc => hs.counted c (hsuffix.subset hc)

end LightStack.Rx.Recv
