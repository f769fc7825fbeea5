import Mathlib

/-!
# The wait of `light_send`

`light_send` looks at `receive_timeout` for a limit and compares with `send_timeout`.
-/

namespace LightStack.Tx.Send.Timeout

structure Timeval where
  tvSec : Int
  tvUsec : Int

def Timeval.Valid (t : Timeval) : Prop := 0 ≤ t.tvSec ∧ 0 ≤ t.tvUsec ∧ t.tvUsec < 1000000

instance decidableValid (t : Timeval) : Decidable t.Valid := inferInstanceAs (Decidable (_ ∧ _))

def Timeval.usecs (t : Timeval) : Int := 1000000 * t.tvSec + t.tvUsec

def timeSubstract (start stop : Timeval) : Option Timeval :=
  if stop.tvSec < start.tvSec then none
  else if start.tvSec = stop.tvSec ∧ stop.tvUsec < start.tvUsec then none
  else
    let sec := stop.tvSec - start.tvSec
    let usec := stop.tvUsec - start.tvSec
    if usec < 0 then some ⟨sec - 1, usec + 1000000⟩ else some ⟨sec, usec⟩

def timeCmp (t u : Timeval) : Int :=
  if u.tvSec < t.tvSec then 1 else if t.tvSec = u.tvSec ∧ u.tvUsec < t.tvUsec then 1 else 0

structure Sock where
  isNonblock : Bool
  sendTimeout : Timeval
  receiveTimeout : Timeval

def givesUp (s : Sock) (start stop : Timeval) : Bool :=
  match timeSubstract start stop with
  | none => false
  | some used => 0 ≤ s.receiveTimeout.tvSec ∧ 0 ≤ s.receiveTimeout.tvUsec ∧
      0 < timeCmp used s.sendTimeout

def waitForSpace (s : Sock) (start : Timeval) : List Timeval → Option Int
  | [] => none
  | stop :: rest => if givesUp s start stop then some (-1) else waitForSpace s start rest

structure Readings (start : Timeval) (l : List Timeval) : Prop where
  valid : ∀ t ∈ start :: l, t.Valid
  sorted : ((start :: l).map Timeval.usecs).Pairwise (· ≤ ·)

def BoundedWait (s : Sock) (start : Timeval) : Prop :=
  ∀ l, Readings start l → (s.isNonblock ∨ ∃ t ∈ l, s.sendTimeout.usecs < t.usecs - start.usecs) →
      waitForSpace s start l = some (-1)

theorem waitForSpace_eq_some_iff (s : Sock) (start : Timeval) (l : List Timeval) :
    waitForSpace s start l = some (-1) ↔ ∃ t ∈ l, givesUp s start t := by
  induction l with
  | nil => simp [waitForSpace]
  | cons t l ih =>
    rw [waitForSpace, List.exists_mem_cons_iff]
    split
    · rename_i hgives
      simp [hgives]
    · rename_i hgives
      simp [hgives, ih]

variable {s : Sock} {start stop : Timeval}

theorem givesUp_iff : givesUp s start stop ↔
    ∃ used, timeSubstract start stop = some used ∧ 0 ≤ s.receiveTimeout.tvSec ∧
      0 ≤ s.receiveTimeout.tvUsec ∧ 0 < timeCmp used s.sendTimeout := by
  unfold givesUp
  cases timeSubstract start stop with
  | none => simp
  | some used => simp

theorem expired_of_early (hstart : start.Valid) (hstop : stop.Valid) (hlimit : s.sendTimeout.Valid)
    (hearly : start.tvSec ≤ start.tvUsec)
    (hexpired : s.sendTimeout.usecs < stop.usecs - start.usecs) :
    ∃ used, timeSubstract start stop = some used ∧ 0 < timeCmp used s.sendTimeout := by
  unfold Timeval.Valid at hstart hstop hlimit
  unfold Timeval.usecs at hexpired
  rw [timeSubstract, if_neg (by omega), if_neg (by omega)]
  dsimp only
  split
  · refine ⟨_, rfl, ?_⟩
    unfold timeCmp
    dsimp only
    split_ifs <;> omega
  · refine ⟨_, rfl, ?_⟩
    unfold timeCmp
    dsimp only
    split_ifs <;> omega

def justExpired (s : Sock) (start : Timeval) : Timeval :=
  let usec := start.tvUsec + s.sendTimeout.tvUsec + 1
  if usec < 1000000 then ⟨start.tvSec + s.sendTimeout.tvSec, usec⟩
  else ⟨start.tvSec + s.sendTimeout.tvSec + 1, usec - 1000000⟩

theorem justExpired_spec (hstart : start.Valid) (hlimit : s.sendTimeout.Valid) :
    (justExpired s start).Valid ∧
      (justExpired s start).usecs = start.usecs + s.sendTimeout.usecs + 1 := by
  unfold Timeval.Valid at hstart hlimit
  unfold justExpired Timeval.Valid Timeval.usecs
  dsimp only
  split <;> dsimp only <;> omega

theorem early_of_expired (hlimit : s.sendTimeout.Valid) {used : Timeval}
    (hused : timeSubstract start (justExpired s start) = some used)
    (hcmp : 0 < timeCmp used s.sendTimeout) : start.tvSec ≤ start.tvUsec := by
  unfold Timeval.Valid at hlimit
  by_contra hlate
  unfold timeSubstract justExpired at hused
  unfold timeCmp at hcmp
  dsimp only at hused
  split_ifs at hused hcmp <;> obtain rfl := Option.some.inj hused <;> dsimp only at * <;> omega

/-- The wait is bounded exactly if the socket is blocking, `SO_RCVTIMEO` is set too, and the call
began at a second not above its microseconds. -/
theorem send_wait_bounded (s : Sock) (start : Timeval) (hstart : start.Valid)
    (hlimit : s.isNonblock = false → s.sendTimeout.Valid) :
    BoundedWait s start ↔ s.isNonblock = false ∧ 0 ≤ s.receiveTimeout.tvSec ∧
      0 ≤ s.receiveTimeout.tvUsec ∧ start.tvSec ≤ start.tvUsec := by
  constructor
  · intro hbounded
    have hblocks : s.isNonblock = false := by
      by_contra hnonblock
      have hnow := hbounded [] ⟨by simpa using hstart, by simp⟩ (.inl (by simpa using hnonblock))
      cases hnow
    have hlimit := hlimit hblocks
    -- the first reading after the timeout has to end the wait
    obtain ⟨hvalid, husecs⟩ := justExpired_spec hstart hlimit
    unfold Timeval.Valid at hlimit
    have hreadings : Readings start [justExpired s start] := by
      refine ⟨by simpa using ⟨hstart, hvalid⟩, ?_⟩
      have hlater : start.usecs ≤ (justExpired s start).usecs := by
        rw [husecs, Timeval.usecs, Timeval.usecs]
        omega
      simpa using hlater
    have hends := hbounded _ hreadings (.inr ⟨_, List.mem_singleton_self _, by omega⟩)
    rw [waitForSpace_eq_some_iff] at hends
    obtain ⟨t, ht, hgives⟩ := hends
    obtain rfl := List.mem_singleton.mp ht
    obtain ⟨used, hused, hsec, husec, hcmp⟩ := givesUp_iff.mp hgives
    exact ⟨hblocks, hsec, husec, early_of_expired hlimit hused hcmp⟩
  · rintro ⟨hblocks, hsec, husec, hearly⟩ l hreadings (hnonblock | ⟨t, ht, hexpired⟩)
    · simp [hblocks] at hnonblock
    · rw [waitForSpace_eq_some_iff]
      have hvalid := hreadings.valid t (List.mem_cons_of_mem start ht)
      obtain ⟨used, hused, hcmp⟩ := expired_of_early hstart hvalid (hlimit hblocks) hearly hexpired
      exact ⟨t, ht, givesUp_iff.mpr ⟨used, hused, hsec, husec, hcmp⟩⟩

theorem send_wait_bounded_at_zero : BoundedWait ⟨false, ⟨1, 0⟩, ⟨1, 0⟩⟩ ⟨0, 0⟩ :=
  (send_wait_bounded ⟨false, ⟨1, 0⟩, ⟨1, 0⟩⟩ ⟨0, 0⟩ (by decide) (by decide)).mpr (by decide)

theorem send_waits_beyond_timeout :
    waitForSpace ⟨false, ⟨1, 0⟩, ⟨1, 0⟩⟩ ⟨1700000000, 0⟩ [⟨1700000002, 999999⟩] = none ∧
      waitForSpace ⟨true, ⟨1, 0⟩, ⟨1, 0⟩⟩ ⟨0, 0⟩ [⟨0, 1⟩] = none ∧
      ¬ BoundedWait ⟨false, ⟨1, 0⟩, ⟨1, 0⟩⟩ ⟨1700000000, 0⟩ := by
  refine ⟨by decide, by decide, fun hbounded => ?_⟩
  have hends := hbounded [⟨1700000002, 999999⟩] ⟨by decide, by decide⟩
    (.inr ⟨_, List.mem_singleton_self _, by decide⟩)
  exact absurd hends (by decide)

/-! ## Elapsed time -/

def Timeval.Normalised (t : Timeval) : Prop := 0 ≤ t.tvUsec ∧ t.tvUsec < 1000000

instance decidableNormalised (t : Timeval) : Decidable t.Normalised :=
  inferInstanceAs (Decidable (_ ∧ _))

theorem timeCmp_eq {t u : Timeval} (ht : t.Normalised) (hu : u.Normalised) :
    timeCmp t u = if u.usecs < t.usecs then 1 else 0 := by
  unfold Timeval.Normalised at ht hu
  unfold timeCmp Timeval.usecs
  split_ifs <;> omega

theorem timeSubstract_eq_none (hstart : start.Normalised) (hstop : stop.Normalised)
    (hback : stop.usecs < start.usecs) : timeSubstract start stop = none := by
  unfold Timeval.Normalised at hstart hstop
  unfold Timeval.usecs at hback
  rw [timeSubstract]
  split_ifs <;> first | rfl | omega

/-- The total is off by what the seconds of the begin differ from its microseconds. -/
theorem timeSubstract_exact_iff (hstart : start.Normalised) (hstop : stop.Normalised)
    (hle : start.usecs ≤ stop.usecs) :
    (∃ used, timeSubstract start stop = some used ∧ used.Normalised ∧
      used.usecs = stop.usecs - start.usecs) ↔ start.tvSec = start.tvUsec := by
  unfold Timeval.Normalised at hstart hstop
  unfold Timeval.usecs at hle
  rw [timeSubstract, if_neg (by omega), if_neg (by omega)]
  dsimp only
  split
  · simp only [Option.some.injEq, exists_eq_left', Timeval.Normalised, Timeval.usecs]
    omega
  · simp only [Option.some.injEq, exists_eq_left', Timeval.Normalised, Timeval.usecs]
    omega

theorem timeSubstract_mono {later used : Timeval} (hstop : stop.Normalised)
    (hlater : later.Normalised) (hle : stop.usecs ≤ later.usecs)
    (hused : timeSubstract start stop = some used) :
    ∃ used', timeSubstract start later = some used' ∧
      (used.tvSec < used'.tvSec ∨ used.tvSec = used'.tvSec ∧ used.tvUsec ≤ used'.tvUsec) := by
  unfold Timeval.Normalised at hstop hlater
  unfold Timeval.usecs at hle
  unfold timeSubstract at hused
  split_ifs at hused with hsec husec
  rw [timeSubstract, if_neg (by omega), if_neg (by omega)]
  dsimp only at hused ⊢
  split_ifs at hused ⊢ <;> obtain rfl := Option.some.inj hused <;>
    exact ⟨_, rfl, by dsimp only; omega⟩

theorem givesUp_mono {later : Timeval} (hstop : stop.Normalised) (hlater : later.Normalised)
    (hle : stop.usecs ≤ later.usecs) (hgives : givesUp s start stop) : givesUp s start later := by
  obtain ⟨used, hused, hsec, husec, hcmp⟩ := givesUp_iff.mp hgives
  obtain ⟨used', hused', horder⟩ := timeSubstract_mono hstop hlater hle hused
  refine givesUp_iff.mpr ⟨used', hused', hsec, husec, ?_⟩
  unfold timeCmp at hcmp ⊢
  split_ifs at hcmp ⊢ <;> omega

/-- `time_substract` is exact if and only if the begin has as many seconds as microseconds, and
always reports an end before the begin. -/
theorem elapsed_time_exact (start stop : Timeval) (hstart : start.Normalised)
    (hstop : stop.Normalised) :
    (start.usecs ≤ stop.usecs →
      ((∃ used, timeSubstract start stop = some used ∧ used.Normalised ∧
        used.usecs = stop.usecs - start.usecs) ↔ start.tvSec = start.tvUsec)) ∧
      (stop.usecs < start.usecs → timeSubstract start stop = none) ∧
      timeCmp start stop = (if stop.usecs < start.usecs then 1 else 0) ∧
      ∀ (s : Sock) (later : Timeval), later.Normalised → stop.usecs ≤ later.usecs →
        givesUp s start stop → givesUp s start later :=
  ⟨timeSubstract_exact_iff hstart hstop, timeSubstract_eq_none hstart hstop,
    timeCmp_eq hstart hstop, fun _ _ hlater => givesUp_mono hstop hlater⟩

theorem elapsed_time_exact_borrow :
    ∃ used, timeSubstract ⟨5, 5⟩ ⟨7, 3⟩ = some used ∧ used.Normalised ∧
      used.usecs = (⟨7, 3⟩ : Timeval).usecs - (⟨5, 5⟩ : Timeval).usecs :=
  ((elapsed_time_exact ⟨5, 5⟩ ⟨7, 3⟩ (by decide) (by decide)).1 (by decide)).mpr rfl

theorem elapsed_time_negative :
    timeSubstract ⟨1, 0⟩ ⟨1, 0⟩ = some ⟨-1, 999999⟩ ∧
      (⟨-1, 999999⟩ : Timeval).usecs ≠ (⟨1, 0⟩ : Timeval).usecs - (⟨1, 0⟩ : Timeval).usecs :=
  ⟨rfl, by decide⟩

end LightStack.Tx.Send.Timeout
