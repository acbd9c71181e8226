import Mathlib.Algebra.Order.Archimedean.Real.Basic
import Mathlib.Algebra.Order.Floor.Semifield
import Mathlib.Tactic.LinearCombination

/-!
# The wall clock

`rtc_get_epoch` of `arch/x86_64/rtc.c`, with an HPET, and `realtime_ms_now`. The seconds are counted in steps of
`10 ^ 9` HPET ticks, and the milliseconds of a second come from the tick counter, which knows nothing of the seconds.
The clock is right for 50 years exactly if a second is a whole number of such steps, the two counters begin their
seconds together, and neither runs over (`realtime_accurate_iff`, `realtime_back`).
-/

namespace ExoOS.Rtc

def rtcGetEpoch (bootEpoch bootHpet now fsPerTick : Nat) : Nat :=
  let delta := (now + 2 ^ 64 - bootHpet) % 2 ^ 64
  bootEpoch + delta / 1000000000 * fsPerTick % 2 ^ 64 / 1000000

def realtimeMsNow (sec ticks : Nat) : Nat := ((if 0 < sec then sec * 1000 % 2 ^ 64 else 0) + ticks % 1000) % 2 ^ 64

/-- Times are in femtoseconds, from `rtc_init` on; the year of the boot epoch has 16 bits. -/
structure Clocks where
  period : Nat
  hpetPhase : ℝ
  tickPhase : ℝ
  bootEpoch : Nat
  period_pos : 0 < period
  period_le : period ≤ 10 ^ 8
  hpet_nonneg : 0 ≤ hpetPhase
  tick_nonneg : 0 ≤ tickPhase
  boot_lt : bootEpoch < 2 ^ 41

def fiftyYears : ℝ := 50 * 366 * 86400 * 10 ^ 15

namespace Clocks

variable (k : Clocks) (t : ℝ)

noncomputable def hpet : Nat := ⌊(t + k.hpetPhase) / k.period⌋₊ % 2 ^ 64

noncomputable def ticks : Nat := ⌊(t + k.tickPhase) / 10 ^ 12⌋₊ % 2 ^ 64

noncomputable def sec : Nat := rtcGetEpoch k.bootEpoch (k.hpet 0) (k.hpet t) k.period

noncomputable def now : Nat := realtimeMsNow (k.sec t) (k.ticks t)

/-- The time since the last HPET tick before the boot. -/
noncomputable def sinceTick : ℝ := t + (k.hpetPhase - k.period * ⌊k.hpetPhase / k.period⌋₊)

/-- For 50 years the clock does not run backwards, is right up to 2 seconds, and nothing overflows. -/
def Accurate : Prop :=
  ∀ t u, 0 ≤ t → t ≤ u → u ≤ fiftyYears → k.now t ≤ k.now u ∧
    |(k.now u : ℝ) - (k.bootEpoch * 1000 + u / 10 ^ 12)| ≤ 2000 ∧
    (k.hpet u + 2 ^ 64 - k.hpet 0) % 2 ^ 64 / 1000000000 * k.period < 2 ^ 64 ∧
    k.sec u * 1000 + k.ticks u % 1000 < 2 ^ 64

/-- `10 ^ 6` femtoseconds are a whole number of HPET ticks; at the HPET tick from which the seconds are counted the tick
counter, which has run over `q` times, was at `j` full seconds; and neither runs over in 50 years. -/
structure Matched : Prop where
  divides : k.period ∣ 1000000
  range : k.sinceTick fiftyYears < k.period * 2 ^ 64
  aligned : ∃ j q : Nat, k.tickPhase = k.sinceTick 0 + j * 10 ^ 15 + q * 2 ^ 64 * 10 ^ 12 ∧
    k.sinceTick fiftyYears + j * 10 ^ 15 < 2 ^ 64 * 10 ^ 12

variable {k t}

theorem one_le_period (k : Clocks) : (1 : ℝ) ≤ k.period := by exact_mod_cast k.period_pos

theorem period_pos' (k : Clocks) : (0 : ℝ) < k.period := one_pos.trans_le k.one_le_period

theorem period_le' (k : Clocks) : (k.period : ℝ) ≤ 10 ^ 8 := by exact_mod_cast k.period_le

theorem sinceTick_bounds (k : Clocks) (t : ℝ) : t ≤ k.sinceTick t ∧ k.sinceTick t < t + k.period := by
  have hpos := k.period_pos'
  have h1 := Nat.floor_le (a := k.hpetPhase / k.period) (div_nonneg k.hpet_nonneg hpos.le)
  have h2 := Nat.lt_floor_add_one (k.hpetPhase / k.period)
  rw [le_div_iff₀ hpos] at h1
  rw [div_lt_iff₀ hpos] at h2
  unfold sinceTick
  constructor <;> nlinarith

theorem sinceTick_sub (k : Clocks) (t u : ℝ) : k.sinceTick t - k.sinceTick u = t - u := by simp [sinceTick]

theorem sinceTick_mono (k : Clocks) : Monotone k.sinceTick := fun t u h => by simpa [sinceTick] using h

/-- The HPET ticks since the boot. -/
theorem delta_eq (ht : 0 ≤ t) : (k.hpet t + 2 ^ 64 - k.hpet 0) % 2 ^ 64 = ⌊k.sinceTick t / k.period⌋₊ % 2 ^ 64 := by
  have hpos := k.period_pos'
  obtain ⟨h1, -⟩ := k.sinceTick_bounds t
  have hsplit : (t + k.hpetPhase) / k.period = k.sinceTick t / k.period + ⌊k.hpetPhase / k.period⌋₊ := by
    rw [sinceTick]
    field_simp
    ring
  unfold hpet
  rw [hsplit, Nat.floor_add_natCast (div_nonneg (ht.trans h1) hpos.le), zero_add]
  omega

/-- The steps of `10 ^ 9` HPET ticks in which the seconds are counted. -/
noncomputable def steps (k : Clocks) (t : ℝ) : Nat := ⌊k.sinceTick t / (k.period * 10 ^ 9)⌋₊

theorem steps_eq_iff {n : Nat} (hx : 0 ≤ k.sinceTick t) : k.steps t = n ↔
    n * (k.period * 10 ^ 9 : ℝ) ≤ k.sinceTick t ∧ k.sinceTick t < (n + 1) * (k.period * 10 ^ 9) := by
  have hL : (0 : ℝ) < k.period * 10 ^ 9 := mul_pos k.period_pos' (by positivity)
  rw [steps, Nat.floor_eq_iff (div_nonneg hx hL.le), le_div_iff₀ hL, div_lt_iff₀ hL]

/-- The products do not overflow, whatever the period is. -/
theorem no_overflow (k : Clocks) (t : ℝ) : (k.hpet t + 2 ^ 64 - k.hpet 0) % 2 ^ 64 / 1000000000 * k.period < 2 ^ 64 ∧
    k.sec t * 1000 + k.ticks t % 1000 < 2 ^ 64 ∧ k.now t = k.sec t * 1000 + k.ticks t % 1000 := by
  have hP := k.period_le
  have hboot := k.boot_lt
  have hlt : (k.hpet t + 2 ^ 64 - k.hpet 0) % 2 ^ 64 / 1000000000 ≤ 18446744073 := by omega
  have hprod := Nat.mul_le_mul hlt hP
  have hsec : k.sec t < 2 ^ 42 := by
    simp only [sec, rtcGetEpoch]
    omega
  refine ⟨by omega, by omega, ?_⟩
  rw [now, realtimeMsNow]
  split <;> omega

theorem sec_eq (ht : 0 ≤ t) (hr : k.sinceTick t < k.period * 2 ^ 64) :
    k.sec t = k.bootEpoch + k.steps t * k.period / 1000000 := by
  have hpos := k.period_pos'
  have hx := ht.trans (k.sinceTick_bounds t).1
  have hlt : ⌊k.sinceTick t / k.period⌋₊ < 2 ^ 64 := by
    rw [Nat.floor_lt (div_nonneg hx hpos.le), div_lt_iff₀ hpos]
    push_cast
    linarith
  have hprod := (k.no_overflow t).1
  rw [delta_eq ht, Nat.mod_eq_of_lt hlt] at hprod
  have hsteps : ⌊k.sinceTick t / k.period⌋₊ / 1000000000 = k.steps t := by
    rw [← Nat.floor_div_natCast, div_div, steps]
    norm_num
  simp only [sec, rtcGetEpoch]
  rw [delta_eq ht, Nat.mod_eq_of_lt hlt, Nat.mod_eq_of_lt hprod, hsteps]

/-! ### Matched clocks are accurate -/

theorem now_eq (hk : k.Matched) (ht : 0 ≤ t) (hu : t ≤ fiftyYears) :
    k.now t = k.bootEpoch * 1000 + ⌊k.sinceTick t / 10 ^ 12⌋₊ := by
  obtain ⟨m, hm⟩ := hk.divides
  obtain ⟨j, q, hphase, hroom⟩ := hk.aligned
  have hx := ht.trans (k.sinceTick_bounds t).1
  have hle := k.sinceTick_mono hu
  -- seconds are thousands of milliseconds
  have hsec : k.steps t * k.period / 1000000 = ⌊k.sinceTick t / 10 ^ 12⌋₊ / 1000 := by
    have hmR : (1000000 : ℝ) = k.period * m := by exact_mod_cast hm
    rw [hm, mul_comm k.period m, Nat.mul_div_mul_right _ _ k.period_pos, steps, ← Nat.floor_div_natCast,
      ← Nat.floor_div_natCast]
    congr 1
    rw [div_div, div_div]
    congr 1
    push_cast
    linear_combination (-1000000000 : ℝ) * hmR
  have hticks : k.ticks t = ⌊k.sinceTick t / 10 ^ 12⌋₊ + 1000 * j := by
    have hsplit : (t + k.tickPhase) / 10 ^ 12 = k.sinceTick t / 10 ^ 12 + (1000 * j + q * 2 ^ 64 : Nat) := by
      have := k.sinceTick_sub t 0
      rw [hphase]
      push_cast
      linarith
    have hlt : ⌊k.sinceTick t / 10 ^ 12⌋₊ + 1000 * j < 2 ^ 64 := by
      rw [← Nat.floor_add_natCast (by positivity), Nat.floor_lt (by positivity)]
      push_cast
      linarith
    rw [ticks, hsplit, Nat.floor_add_natCast (by positivity)]
    omega
  rw [(k.no_overflow t).2.2, sec_eq ht (hle.trans_lt hk.range), hsec, hticks]
  omega

theorem Matched.accurate (hk : k.Matched) : k.Accurate := by
  intro t u ht htu hu
  have h0 := ht.trans htu
  obtain ⟨hprod, hsum, -⟩ := k.no_overflow u
  refine ⟨?_, ?_, hprod, hsum⟩
  · rw [now_eq hk ht (htu.trans hu), now_eq hk h0 hu]
    have := k.sinceTick_mono htu
    gcongr
  · obtain ⟨h1, h2⟩ := k.sinceTick_bounds u
    have hle := Nat.floor_le (div_nonneg (h0.trans h1) (by positivity : (0 : ℝ) ≤ 10 ^ 12))
    have hlt := Nat.lt_floor_add_one (k.sinceTick u / 10 ^ 12)
    have hP := k.period_le'
    rw [now_eq hk h0 hu, abs_le]
    push_cast
    constructor <;> linarith

/-! ### Accurate clocks are matched -/

section

variable (h : k.Accurate)
include h

/-- An HPET that has run over shows the boot epoch again. -/
theorem Accurate.range : k.sinceTick fiftyYears < k.period * 2 ^ 64 := by
  by_contra hge
  have hpos := k.one_le_period
  obtain ⟨h1, h2⟩ := k.sinceTick_bounds 0
  have hP := k.period_le'
  set t : ℝ := k.period * 2 ^ 64 - k.sinceTick 0 with ht
  have hxt : k.sinceTick t = k.period * 2 ^ 64 := by linarith [k.sinceTick_sub t 0]
  have ht0 : 0 ≤ t := by nlinarith
  have htF : t ≤ fiftyYears := by linarith [k.sinceTick_sub fiftyYears t]
  have herr := (h t t ht0 le_rfl htF).2.1
  have hsec : k.sec t = k.bootEpoch := by
    have hdiv : ⌊k.sinceTick t / k.period⌋₊ = 2 ^ 64 := by
      rw [hxt, mul_div_cancel_left₀ _ (by linarith : (k.period : ℝ) ≠ 0)]
      exact_mod_cast Nat.floor_natCast (2 ^ 64)
    simp only [sec, rtcGetEpoch]
    rw [delta_eq ht0, hdiv]
    simp
  rw [(k.no_overflow t).2.2, hsec] at herr
  have hms : ((k.ticks t % 1000 : Nat) : ℝ) < 1000 := by exact_mod_cast Nat.mod_lt _ (by decide)
  push_cast at herr
  have := (abs_le.1 herr).1
  nlinarith

theorem Accurate.sec_eq (ht : 0 ≤ t) (hu : t ≤ fiftyYears) :
    k.sec t = k.bootEpoch + k.steps t * k.period / 1000000 :=
  Clocks.sec_eq ht ((k.sinceTick_mono hu).trans_lt h.range)

/-- Just before the milliseconds go back to zero, the seconds were fewer. -/
theorem Accurate.before_drop {N : Nat} {ε : ℝ} (hu : t ≤ fiftyYears) (hN : t + k.tickPhase = N * 10 ^ 12)
    (hdrop : N % 2 ^ 64 % 1000 = 0) (he : 0 < ε) (het : ε < t) (he12 : ε < 10 ^ 12) :
    k.steps (t - ε) * k.period / 1000000 < k.steps t * k.period / 1000000 := by
  have hnn := k.tick_nonneg
  have hmono := (h (t - ε) t (by linarith) (by linarith) hu).1
  have hpos : 1 ≤ N := Nat.pos_of_ne_zero fun h0 => by
    rw [h0] at hN
    push_cast at hN
    linarith
  have hcast : ((N - 1 : Nat) : ℝ) = N - 1 := by push_cast [hpos]; ring
  have hlast : ⌊(t - ε + k.tickPhase) / 10 ^ 12⌋₊ = N - 1 := by
    rw [Nat.floor_eq_iff (div_nonneg (by linarith) (by positivity)), le_div_iff₀ (by positivity),
      div_lt_iff₀ (by positivity), hcast]
    constructor <;> linarith
  rw [(k.no_overflow _).2.2, (k.no_overflow _).2.2, h.sec_eq (by linarith) (by linarith),
    h.sec_eq (by linarith) hu, ticks, ticks, hlast, hN, mul_div_cancel_right₀ _ (by positivity), Nat.floor_natCast,
    hdrop] at hmono
  omega

/-- When the milliseconds go back to zero, a step has just ended, and it ended a second. -/
theorem Accurate.step_of_drop {N : Nat} (ht : 0 < t) (hu : t ≤ fiftyYears) (hN : t + k.tickPhase = N * 10 ^ 12)
    (hdrop : N % 2 ^ 64 % 1000 = 0) : ∃ n : Nat, k.sinceTick t = n * (k.period * 10 ^ 9) ∧
      (n - 1) * k.period / 1000000 < n * k.period / 1000000 := by
  have hL : (0 : ℝ) < k.period * 10 ^ 9 := mul_pos k.period_pos' (by positivity)
  have hx : 0 < k.sinceTick t := ht.trans_le (k.sinceTick_bounds t).1
  have hsub : ∀ ε, k.sinceTick (t - ε) = k.sinceTick t - ε := fun ε => by linarith [k.sinceTick_sub (t - ε) t]
  -- there is a time before `t`, by less than `δ`, with fewer seconds
  have hnear : ∀ δ, 0 < δ → δ ≤ k.sinceTick t → ∃ ε, 0 < ε ∧ ε < δ ∧ 0 ≤ k.sinceTick (t - ε) ∧
      k.steps (t - ε) * k.period / 1000000 < k.steps t * k.period / 1000000 := fun δ hδ hδx => by
    obtain ⟨ε, he, hlt⟩ := exists_between (lt_min hδ (lt_min ht (by norm_num : (0 : ℝ) < 10 ^ 12)))
    rw [lt_min_iff, lt_min_iff] at hlt
    exact ⟨ε, he, hlt.1, by linarith [hsub ε], h.before_drop hu hN hdrop he hlt.2.1 hlt.2.2⟩
  obtain ⟨hle, hlt⟩ := (steps_eq_iff hx.le).1 rfl
  have heq : k.sinceTick t = k.steps t * (k.period * 10 ^ 9) := by
    by_contra hne
    have hgt := lt_of_le_of_ne hle (Ne.symm hne)
    obtain ⟨ε, he, he1, h0, hfew⟩ := hnear _ (sub_pos.2 hgt) (sub_le_self _ (by positivity))
    rw [(steps_eq_iff h0).2 (by rw [hsub]; constructor <;> linarith)] at hfew
    exact absurd hfew (lt_irrefl _)
  have hn : 1 ≤ k.steps t := Nat.pos_of_ne_zero fun h0 => by
    rw [h0] at heq
    push_cast at heq
    linarith
  have h1 : (1 : ℝ) ≤ k.steps t := by exact_mod_cast hn
  refine ⟨k.steps t, heq, ?_⟩
  obtain ⟨ε, he, he1, h0, hfew⟩ := hnear _ hL (by rw [heq]; nlinarith)
  have hcast : ((k.steps t - 1 : Nat) : ℝ) = k.steps t - 1 := by push_cast [hn]; ring
  rwa [(steps_eq_iff h0).2 (by rw [hsub, hcast, heq]; constructor <;> nlinarith)] at hfew

end

/-- The time when the tick counter gets to `N`. -/
theorem time_of_count (k : Clocks) {N : Nat} (hN : ⌊k.tickPhase / 10 ^ 12⌋₊ < N) :
    0 < N * 10 ^ 12 - k.tickPhase ∧
      ∀ d : Nat, N ≤ ⌊k.tickPhase / 10 ^ 12⌋₊ + d → N * 10 ^ 12 - k.tickPhase ≤ d * 10 ^ 12 := by
  have h1 := Nat.floor_le (div_nonneg k.tick_nonneg (by positivity : (0 : ℝ) ≤ 10 ^ 12))
  have h2 := Nat.lt_floor_add_one (k.tickPhase / 10 ^ 12)
  rw [le_div_iff₀ (by positivity)] at h1
  rw [div_lt_iff₀ (by positivity)] at h2
  have h3 : (⌊k.tickPhase / 10 ^ 12⌋₊ + 1 : ℝ) ≤ N := by exact_mod_cast hN
  refine ⟨by nlinarith, fun d hd => ?_⟩
  have h4 : (N : ℝ) ≤ ⌊k.tickPhase / 10 ^ 12⌋₊ + d := by exact_mod_cast hd
  nlinarith

/-- The milliseconds go back to zero, and do so again a second later. -/
theorem exists_drops (C : Nat) :
    ∃ N, C < N ∧ N ≤ C + 2000 ∧ N % 2 ^ 64 % 1000 = 0 ∧ (N + 1000) % 2 ^ 64 % 1000 = 0 := by
  obtain ⟨q, b, hb, rfl⟩ : ∃ q b, b < 2 ^ 64 ∧ C = 2 ^ 64 * q + b :=
    ⟨C / 2 ^ 64, C % 2 ^ 64, Nat.mod_lt _ (by decide), (Nat.div_add_mod ..).symm⟩
  by_cases hw : b + 2000 < 2 ^ 64
  · obtain ⟨h1, h2⟩ : 1000 * (b / 1000) ≤ b ∧ b < 1000 * (b / 1000) + 1000 := by omega
    refine ⟨2 ^ 64 * q + 1000 * (b / 1000 + 1), by omega, by omega, ?_, ?_⟩
    · rw [Nat.mul_add_mod, Nat.mod_eq_of_lt (by omega : 1000 * (b / 1000 + 1) < 2 ^ 64), Nat.mul_mod_right]
    · rw [Nat.add_assoc, ← Nat.mul_add_one, Nat.mul_add_mod,
        Nat.mod_eq_of_lt (by omega : 1000 * (b / 1000 + 1 + 1) < 2 ^ 64), Nat.mul_mod_right]
  · exact ⟨2 ^ 64 * q + 2 ^ 64, by omega, by omega, by omega, by omega⟩

theorem Accurate.divides (h : k.Accurate) : k.period ∣ 1000000 := by
  obtain ⟨N, hN, hle, hd1, hd2⟩ := exists_drops ⌊k.tickPhase / 10 ^ 12⌋₊
  obtain ⟨h0, hu⟩ := k.time_of_count hN
  have hu := hu 2000 hle
  push_cast at hu
  obtain ⟨n, hn, -⟩ := h.step_of_drop h0 (by norm_num [fiftyYears]; linarith) (by ring) hd1
  obtain ⟨n', hn', -⟩ := h.step_of_drop (t := N * 10 ^ 12 - k.tickPhase + 10 ^ 15) (by linarith)
    (by norm_num [fiftyYears]; linarith) (by push_cast; ring) hd2
  have hsub := k.sinceTick_sub (N * 10 ^ 12 - k.tickPhase + 10 ^ 15) (N * 10 ^ 12 - k.tickPhase)
  have hmul : n' * k.period = n * k.period + 1000000 := by
    have : (n' * k.period : ℝ) = n * k.period + 1000000 := by
      rw [hn, hn'] at hsub
      linarith
    exact_mod_cast this
  exact (Nat.dvd_add_right (Dvd.intro_left n rfl)).1 (hmul ▸ Dvd.intro_left n' rfl)

theorem Accurate.second_of_drop (h : k.Accurate) {N : Nat} (ht : 0 < t) (hu : t ≤ fiftyYears)
    (hN : t + k.tickPhase = N * 10 ^ 12) (hdrop : N % 2 ^ 64 % 1000 = 0) : ∃ g : Nat, k.sinceTick t = g * 10 ^ 15 := by
  obtain ⟨m, hm⟩ := h.divides
  obtain ⟨n, hn, hjump⟩ := h.step_of_drop ht hu hN hdrop
  rw [hm, mul_comm k.period m, Nat.mul_div_mul_right _ _ k.period_pos, Nat.mul_div_mul_right _ _ k.period_pos] at hjump
  have hdvd : m ∣ n := by
    rcases n with _ | n
    · exact absurd hjump (by simp)
    · rw [Nat.add_sub_cancel, Nat.succ_div] at hjump
      by_contra hno
      rw [if_neg hno] at hjump
      exact absurd hjump (lt_irrefl _)
  obtain ⟨g, rfl⟩ := hdvd
  refine ⟨g, ?_⟩
  have hmR : (1000000 : ℝ) = k.period * m := by exact_mod_cast hm
  rw [hn]
  push_cast
  linear_combination (-1000000000 * g : ℝ) * hmR

/-- A tick counter that runs over is not at a full second then and 616 ticks before. -/
theorem Accurate.no_wrap (h : k.Accurate) :
    fiftyYears < (⌊k.tickPhase / 10 ^ 12⌋₊ / 2 ^ 64 + 1 : Nat) * 2 ^ 64 * 10 ^ 12 - k.tickPhase := by
  by_contra hge
  set C := ⌊k.tickPhase / 10 ^ 12⌋₊ with hC
  obtain ⟨N, hNdef⟩ : ∃ N, N = (C / 2 ^ 64 + 1) * 2 ^ 64 := ⟨_, rfl⟩
  have hN : C < N := by omega
  obtain ⟨h0, hu⟩ := k.time_of_count hN
  have hF : N * 10 ^ 12 - k.tickPhase ≤ fiftyYears := by
    rw [hNdef]
    push_cast at hge ⊢
    linarith
  obtain ⟨g, hg⟩ := h.second_of_drop h0 hF (by ring) (by omega : N % 2 ^ 64 % 1000 = 0)
  by_cases hfar : C < N - 616
  · obtain ⟨h0', -⟩ := k.time_of_count hfar
    have hcast : ((N - 616 : Nat) : ℝ) = N - 616 := by push_cast [show 616 ≤ N by omega]; ring
    rw [hcast] at h0'
    obtain ⟨g', hg'⟩ := h.second_of_drop h0' (by linarith) (by rw [hcast]; ring)
      (by omega : (N - 616) % 2 ^ 64 % 1000 = 0)
    have hsub := k.sinceTick_sub (N * 10 ^ 12 - k.tickPhase) ((N - 616) * 10 ^ 12 - k.tickPhase)
    rw [hg, hg'] at hsub
    have : (g * 1000 : ℝ) = g' * 1000 + 616 := by linarith
    have : g * 1000 = g' * 1000 + 616 := by exact_mod_cast this
    omega
  · have hd := hu 616 (by omega)
    obtain ⟨h1, h2⟩ := k.sinceTick_bounds (N * 10 ^ 12 - k.tickPhase)
    have hP := k.period_le'
    push_cast at hd
    have hlt : (g : ℝ) < 1 := by linarith
    have hpos : (0 : ℝ) < g := by linarith
    have : g < 1 := by exact_mod_cast hlt
    have : 0 < g := by exact_mod_cast hpos
    omega

theorem Accurate.matched (h : k.Accurate) : k.Matched := by
  refine ⟨h.divides, h.range, ?_⟩
  have hwrap := h.no_wrap
  set C := ⌊k.tickPhase / 10 ^ 12⌋₊ with hC
  obtain ⟨N, hN, hle, hd, -⟩ := exists_drops C
  obtain ⟨h0, hu⟩ := k.time_of_count hN
  have hu := hu 2000 hle
  push_cast at hu
  have hF : N * 10 ^ 12 - k.tickPhase ≤ fiftyYears := by
    norm_num [fiftyYears]
    linarith
  obtain ⟨g, hg⟩ := h.second_of_drop h0 hF (by ring) hd
  have hq : N / 2 ^ 64 = C / 2 ^ 64 := by
    have : (N : ℝ) < (C / 2 ^ 64 + 1 : Nat) * 2 ^ 64 := by linarith
    have : N < (C / 2 ^ 64 + 1) * 2 ^ 64 := by exact_mod_cast this
    omega
  have hNeq : N = C / 2 ^ 64 * 2 ^ 64 + 1000 * (N % 2 ^ 64 / 1000) := by omega
  have hsub := k.sinceTick_sub (N * 10 ^ 12 - k.tickPhase) 0
  obtain ⟨h1, h2⟩ := k.sinceTick_bounds 0
  have hP := k.period_le'
  have hCle := Nat.floor_le (div_nonneg k.tick_nonneg (by positivity : (0 : ℝ) ≤ 10 ^ 12))
  rw [le_div_iff₀ (by positivity), ← hC] at hCle
  have hqC : ((C / 2 ^ 64 * 2 ^ 64 : Nat) : ℝ) ≤ C := by exact_mod_cast Nat.div_mul_le_self C (2 ^ 64)
  have hNR : (N : ℝ) = (C / 2 ^ 64 : Nat) * 2 ^ 64 + 1000 * (N % 2 ^ 64 / 1000 : Nat) := by exact_mod_cast hNeq
  generalize (N % 2 ^ 64 / 1000 : Nat) = b at hNR
  have hgb : g ≤ b := by
    have : (g : ℝ) < b + 1 := by
      push_cast at hqC
      rw [hg] at hsub
      nlinarith
    exact Nat.lt_succ_iff.1 (by exact_mod_cast this)
  have hcast : ((b - g : Nat) : ℝ) = b - g := by push_cast [hgb]; ring
  have hphase : k.tickPhase = k.sinceTick 0 + (b - g : Nat) * 10 ^ 15 + (C / 2 ^ 64 : Nat) * 2 ^ 64 * 10 ^ 12 := by
    rw [hcast]
    rw [hg] at hsub
    linarith
  refine ⟨b - g, C / 2 ^ 64, hphase, ?_⟩
  have := k.sinceTick_sub fiftyYears 0
  push_cast at hwrap hphase ⊢
  linarith

end Clocks

open Clocks

theorem realtime_accurate_iff (k : Clocks) : k.Accurate ↔ k.Matched := ⟨fun h => h.matched, fun h => h.accurate⟩

/-- An HPET of 2 GHz and a tick counter that start together. -/
noncomputable def twoGHz : Clocks where
  period := 500000
  hpetPhase := 0
  tickPhase := 0
  bootEpoch := 1700000000
  period_pos := by decide
  period_le := by decide
  hpet_nonneg := le_refl 0
  tick_nonneg := le_refl 0
  boot_lt := by decide

/-- With a period of `10 ^ 8` femtoseconds the seconds stand still for 100 seconds. -/
theorem realtime_back : ∃ k : Clocks, ∃ t u : ℝ, 0 ≤ t ∧ t ≤ u ∧ u ≤ fiftyYears ∧ k.now u < k.now t ∧
    2000 < |(k.now u : ℝ) - (k.bootEpoch * 1000 + u / 10 ^ 12)| := by
  let k : Clocks := { twoGHz with period := 100000000, period_pos := by decide, period_le := by decide }
  have hnow : ∀ n : Nat, n < 100000 → k.now (n * 10 ^ 12) = 1700000000000 + n % 1000 := by
    intro n hn
    have h1 : ((n : ℝ) * 10 ^ 12) / 100000000 = (n * 10000 : ℕ) := by
      push_cast
      ring
    have h2 : n * 10000 % 2 ^ 64 = n * 10000 := Nat.mod_eq_of_lt (by omega)
    have h3 : n * 10000 / 1000000000 = 0 := Nat.div_eq_of_lt (by omega)
    have h4 : n % 2 ^ 64 = n := Nat.mod_eq_of_lt (by omega)
    simp [now, sec, ticks, hpet, rtcGetEpoch, k, twoGHz, h1, realtimeMsNow, -Nat.cast_mul, -Nat.reducePow, h2, h3, h4]
    omega
  refine ⟨k, (9999 : ℕ) * 10 ^ 12, (10000 : ℕ) * 10 ^ 12, by norm_num, by norm_num, by norm_num [fiftyYears], ?_, ?_⟩
  · rw [hnow 9999 (by decide), hnow 10000 (by decide)]
    decide
  · rw [hnow 10000 (by decide)]
    norm_num [k, twoGHz]

end ExoOS.Rtc
