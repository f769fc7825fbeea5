import Mathlib.Tactic.NormNum

/-!
# Ticks, timers and delayed work

One jiffy is a millisecond. The functions for microseconds divide where they have to multiply.
-/

namespace LightStack.Timing

def msecsToJiffies (m : UInt32) : UInt64 := m.toUInt64

def usecsToJiffies (u : UInt32) : UInt64 := (u * 1000).toUInt64

def jiffiesToMsecs (j : UInt64) : UInt32 := j.toUInt32

def jiffiesToUsecs (j : UInt64) : UInt32 := (j / 1000).toUInt32

/-- The microseconds between two ticks that `init_systick` asks for. -/
def tickUsecs : Nat := 1000

/-- The least number of ticks that is not shorter than `d` microseconds. -/
def IsTicksFor (d n : Nat) : Prop := d ≤ n * tickUsecs ∧ ∀ k, d ≤ k * tickUsecs → n ≤ k

theorem isTicksFor_iff {d n : Nat} : IsTicksFor d n ↔ n = (d + 999) / 1000 := by
  have hceil : d ≤ (d + 999) / 1000 * 1000 := by omega
  simp only [IsTicksFor, tickUsecs]
  constructor
  · rintro ⟨hlong, hleast⟩
    have hle := hleast _ hceil
    clear hleast
    omega
  · rintro rfl
    refine ⟨hceil, fun k hk => ?_⟩
    rw [Nat.div_le_iff_le_mul_add_pred (by decide)]
    omega

theorem wrapped_ne_ticks : ∀ k < 1000, k = 0 ∨
    ¬(2 ^ 32 * k ≤ 999999 * ((2 ^ 32 * k + 999000) / 999999) ∧
      (999999 * ((2 ^ 32 * k + 999000) / 999999) - 2 ^ 32 * k) % 1000 = 0) := by
  decide +kernel

theorem usecs_ticks_iff {u : Nat} (hu : u < 2 ^ 32) :
    u * 1000 % 2 ^ 32 = (u + 999) / 1000 ↔ u = 0 := by
  constructor
  · intro heq
    have hdiv := Nat.div_add_mod (u * 1000) (2 ^ 32)
    have hk : u * 1000 / 2 ^ 32 < 1000 := by omega
    have hnone := wrapped_ne_ticks _ hk
    generalize u * 1000 / 2 ^ 32 = k at hdiv hk hnone
    rw [heq] at hdiv
    have hround := Nat.div_add_mod (u + 999) 1000
    have hrest := Nat.mod_lt (u + 999) (show 0 < 1000 by decide)
    generalize (u + 999) / 1000 = q at hdiv hround
    generalize (u + 999) % 1000 = r at hround hrest
    -- with `u = 1000 * q + r - 999` the product is `2 ^ 32 * k + q`
    have hq : 999999 * q + 1000 * r = 2 ^ 32 * k + 999000 := by omega
    have hquot : (2 ^ 32 * k + 999000) / 999999 = q := by omega
    rw [hquot] at hnone
    omega
  · rintro rfl
    rfl

/-- The conversions from and to milliseconds are those of the tick. -/
theorem jiffies_conversions_consistent (m u : UInt32) (j : UInt64) :
    IsTicksFor (m.toNat * 1000) (msecsToJiffies m).toNat ∧
      (j.toNat < 2 ^ 32 →
        (jiffiesToMsecs j).toNat = j.toNat ∧ msecsToJiffies (jiffiesToMsecs j) = j) ∧
      (IsTicksFor u.toNat (usecsToJiffies u).toNat ↔ u = 0) ∧
      (j.toNat * tickUsecs < 2 ^ 32 →
        ((jiffiesToUsecs j).toNat = j.toNat * tickUsecs ↔ j = 0) ∧
          (usecsToJiffies (jiffiesToUsecs j) = j ↔ 1000 ∣ j.toNat)) := by
  refine ⟨?_, fun hj => ?_, ?_, fun hj => ?_⟩
  · rw [isTicksFor_iff, msecsToJiffies, UInt32.toNat_toUInt64]
    omega
  · have hmsecs : (jiffiesToMsecs j).toNat = j.toNat := by
      rw [jiffiesToMsecs, UInt64.toNat_toUInt32, Nat.mod_eq_of_lt hj]
    refine ⟨hmsecs, UInt64.toNat_inj.mp ?_⟩
    rw [msecsToJiffies, UInt32.toNat_toUInt64, hmsecs]
  · have hlt := u.toNat_lt
    rw [isTicksFor_iff, usecsToJiffies, UInt32.toNat_toUInt64, UInt32.toNat_mul, ← UInt32.toNat_inj]
    exact usecs_ticks_iff hlt
  · have husecs : (jiffiesToUsecs j).toNat = j.toNat / 1000 := by
      rw [jiffiesToUsecs, UInt64.toNat_toUInt32, UInt64.toNat_div]
      exact Nat.mod_eq_of_lt (by simp only [tickUsecs] at hj; change j.toNat / 1000 < _; omega)
    rw [← UInt64.toNat_inj, ← UInt64.toNat_inj, usecsToJiffies, UInt32.toNat_toUInt64,
      UInt32.toNat_mul, husecs]
    simp only [tickUsecs] at hj ⊢
    change (j.toNat / 1000 = j.toNat * 1000 ↔ j.toNat = 0) ∧
      (j.toNat / 1000 * 1000 % 2 ^ 32 = j.toNat ↔ 1000 ∣ j.toNat)
    omega

theorem usecs_scaled_wrongly : usecsToJiffies 1 = 1000 ∧ ¬IsTicksFor 1 (usecsToJiffies 1).toNat ∧
      jiffiesToUsecs 1000 = 1 ∧ usecsToJiffies (jiffiesToUsecs 1) ≠ 1 := by
  rw [isTicksFor_iff]
  decide

/-- The cycles after which `mod_timer` lets the timer fire. `hz` is `rte_get_timer_hz()`. -/
def modTimer (hz HZ jiffies expires : UInt64) : UInt64 := hz * (expires - jiffies) / HZ

def queueDelayedWorkOn (hz jiffies delay : UInt64) : UInt64 := hz * (jiffies + delay)

def modDelayedWorkOn (hz jiffies delay : UInt64) : UInt64 := hz * (jiffies + delay)

/-- The ticks until `expires`, which is past if the difference is negative. -/
def ticksLeft (jiffies expires : UInt64) : Nat :=
  if (expires - jiffies).toNat < 2 ^ 63 then (expires - jiffies).toNat else 0

def cycles (hz HZ : UInt64) (ticks : Nat) : Nat := hz.toNat * ticks / HZ.toNat

/-- `ahead` is `expires - jiffies` in 64 bits. -/
def InTime (hz HZ ahead : UInt64) : Prop :=
  ahead.toNat < 2 ^ 63 ∧ hz.toNat * ahead.toNat < 2 ^ 64 ∨
    2 ^ 63 ≤ ahead.toNat ∧ hz.toNat * ahead.toNat % 2 ^ 64 < HZ.toNat

instance (hz HZ ahead : UInt64) : Decidable (InTime hz HZ ahead) :=
  inferInstanceAs (Decidable (_ ∨ _))

/-- The cycles by which `hz * (jiffies + delay)` is more than the delay. -/
def excess (hz HZ jiffies delay : UInt64) : Nat :=
  hz.toNat * jiffies.toNat + (hz.toNat * delay.toNat - cycles hz HZ delay.toNat)

theorem modDelayedWorkOn_eq : modDelayedWorkOn = queueDelayedWorkOn := rfl

theorem modTimer_right_iff {hz HZ jiffies expires : UInt64} (hHZ : 0 < HZ.toNat) :
    (modTimer hz HZ jiffies expires).toNat = cycles hz HZ (ticksLeft jiffies expires) ↔
      InTime hz HZ (expires - jiffies) := by
  rw [modTimer, UInt64.toNat_div, UInt64.toNat_mul, cycles, ticksLeft, InTime]
  by_cases hlater : (expires - jiffies).toNat < 2 ^ 63
  · rw [if_pos hlater]
    generalize hz.toNat * (expires - jiffies).toNat = product
    simp only [hlater, true_and, Nat.not_le.mpr hlater, false_and, or_false]
    refine ⟨fun heq => ?_, fun hfits => by rw [Nat.mod_eq_of_lt hfits]⟩
    by_contra hwrapped
    -- a wrapped product is too small by at least one multiple of `HZ`
    have hless : product % 2 ^ 64 + HZ.toNat ≤ product := by
      have := HZ.toNat_lt
      omega
    have hlt := Nat.div_le_div_right (c := HZ.toNat) hless
    rw [Nat.add_div_right _ hHZ] at hlt
    omega
  · rw [if_neg hlater, Nat.mul_zero, Nat.zero_div, Nat.div_eq_zero_iff_lt hHZ]
    simp only [hlater, false_and, Nat.not_lt.mp hlater, true_and, false_or]

theorem queued_right_iff {hz HZ jiffies delay : UInt64} :
    (queueDelayedWorkOn hz jiffies delay).toNat = cycles hz HZ delay.toNat ↔
      2 ^ 64 ∣ excess hz HZ jiffies delay ∧ cycles hz HZ delay.toNat < 2 ^ 64 := by
  have hle : cycles hz HZ delay.toNat ≤ hz.toNat * delay.toNat := Nat.div_le_self ..
  have hsum : hz.toNat * (jiffies.toNat + delay.toNat) =
      cycles hz HZ delay.toNat + excess hz HZ jiffies delay := by
    rw [excess, Nat.mul_add]
    omega
  have hcode : (queueDelayedWorkOn hz jiffies delay).toNat =
      (cycles hz HZ delay.toNat + excess hz HZ jiffies delay) % 2 ^ 64 := by
    rw [queueDelayedWorkOn, UInt64.toNat_mul, UInt64.toNat_add, Nat.mul_mod_mod, hsum]
  rw [hcode]
  omega

theorem excess_eq_zero_iff {hz HZ jiffies delay : UInt64} (hHZ : 1 < HZ.toNat) :
    excess hz HZ jiffies delay = 0 ↔ hz.toNat * (jiffies.toNat + delay.toNat) = 0 := by
  rw [excess, cycles, Nat.mul_add, Nat.add_eq_zero_iff, Nat.add_eq_zero_iff, Nat.sub_eq_zero_iff_le]
  refine and_congr_right fun _ => ⟨fun hle => ?_, fun hzero => by simp [hzero]⟩
  by_contra hne
  have := Nat.div_lt_self (Nat.pos_of_ne_zero hne) hHZ
  omega

/-- `mod_timer` is right exactly for an expiry that has not passed while the product fits 64 bits,
and for a passed one if the wrapped product happens to be less than `HZ`. Delayed work is late by
`excess`, so it is right only where this is a multiple of `2 ^ 64`; without overflow, never unless
there is nothing to wait for. -/
theorem timer_delays (hz HZ jiffies : UInt64) (hHZ : 1 < HZ.toNat) :
    (∀ expires, (modTimer hz HZ jiffies expires).toNat = cycles hz HZ (ticksLeft jiffies expires) ↔
        InTime hz HZ (expires - jiffies)) ∧
      ∀ delay : UInt64, ∀ code ∈ [queueDelayedWorkOn, modDelayedWorkOn],
        ((code hz jiffies delay).toNat = cycles hz HZ delay.toNat ↔
          2 ^ 64 ∣ excess hz HZ jiffies delay ∧ cycles hz HZ delay.toNat < 2 ^ 64) ∧
        (hz.toNat * (jiffies.toNat + delay.toNat) < 2 ^ 64 →
          ((code hz jiffies delay).toNat = cycles hz HZ delay.toNat ↔
            hz.toNat * (jiffies.toNat + delay.toNat) = 0)) := by
  refine ⟨fun expires => modTimer_right_iff (by omega), fun delay code hcode => ?_⟩
  obtain rfl : code = queueDelayedWorkOn := by simpa [modDelayedWorkOn_eq] using hcode
  refine ⟨queued_right_iff, fun hfits => ?_⟩
  rw [queued_right_iff, ← excess_eq_zero_iff hHZ]
  have hle : cycles hz HZ delay.toNat ≤ hz.toNat * delay.toNat := Nat.div_le_self ..
  rw [Nat.mul_add] at hfits
  have hexcess : excess hz HZ jiffies delay < 2 ^ 64 := by
    rw [excess]
    omega
  refine ⟨fun h => Nat.eq_zero_of_dvd_of_lt h.1 hexcess, fun h => ⟨h ▸ Nat.dvd_zero _, by omega⟩⟩

theorem timer_delays_five_ticks : (modTimer 1000000 1000 10 15).toNat = cycles 1000000 1000 5 ∧
      (queueDelayedWorkOn 1000000 0 0).toNat = cycles 1000000 1000 0 := by
  obtain ⟨htimer, -⟩ := timer_delays 1000000 1000 10 (by decide)
  obtain ⟨-, hwork⟩ := timer_delays 1000000 1000 0 (by decide)
  exact ⟨(htimer 15).mpr (by decide), ((hwork 0 _ (.head _)).2 (by decide)).mpr (by decide)⟩

theorem past_expiry_delayed :
    ticksLeft 10 9 = 0 ∧ (modTimer 1000000 1000 10 9).toNat = 18446744073708551 ∧
      (queueDelayedWorkOn 1000000 0 1).toNat = 1000000 ∧ cycles 1000000 1000 1 = 1000 ∧
        (modDelayedWorkOn 1000000 0 1).toNat = 1000000 := by
  decide

end LightStack.Timing
