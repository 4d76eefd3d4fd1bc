import Http3Bench.EventLoop
import Mathlib.Order.Bounds.Basic

/-!
# Batch and tick of BenchMultiplex

`rate_batch` and the part of `main` in `benchcli-rust/src/main.rs` that turns `-rr`, `-rb`, `-rbs`
and `-b` into the batch and the tick of a `RateJob`, and the loop of `drive_rate` that steps by that
tick.
-/

namespace Http3Bench

namespace RatePlan

/-- The loop of `rate_batch`, from `batch` downwards. -/
def searchBatch (rate : ℕ) : ℕ → ℕ
  | 0 => 0
  | batch + 1 =>
    if 1 < batch + 1 ∧ rate % (batch + 1) ≠ 0 then searchBatch rate batch else batch + 1

/-- The batch `-rb` asks for, or with `-rb=0` the most request bodies that fit in `-rbs` bytes and
divide `-rr`, with how many times a second it is sent. -/
def rateBatch (rb rate rbs payload : ℕ) : Except String (ℕ × ℕ) :=
  if 0 < rb then
    if rate % rb ≠ 0 then
      .error s!"batch {rb} does not divide the send rate {rate}, so no whole number of bursts a second sends it; pick a divisor of {rate}"
    else .ok (rb, rate / rb)
  else
    let batch := searchBatch rate (max (rbs / max payload 1) 1)
    .ok (batch, rate / batch)

/-- What `get_int` reads for `-rb`, `-rr`, `-rbs` and `-b`. -/
structure Flags where
  rb : Int64
  rr : Int64
  rbs : Int64
  b : Int64
  deriving DecidableEq

/-- `x as usize`. -/
def asUsize (x : ℤ) : ℕ := (x % 2 ^ 64).toNat

def Flags.payload (f : Flags) : ℕ := asUsize (max f.b.toInt 1)

def Flags.rateSend (f : Flags) : ℕ := asUsize (max f.rr.toInt 1)

/-- The plan `main` makes with `-rate=true`, or the text it exits with. -/
def ratePlan (f : Flags) : Except String (ℕ × ℕ) :=
  let rb := f.rb.toInt
  match rateBatch (asUsize (max rb (-1))) f.rateSend (asUsize (max f.rbs.toInt 1)) f.payload with
  | .error e => .error s!"-rb={rb}: {e}"
  | .ok plan =>
    if rb < 0 then .error s!"-rb={rb}: want 0, which fits as many requests as -rbs holds, or more"
    else .ok plan

/-- `Duration::from_secs(1) / tick_rate as u32`, in nanoseconds; a division by zero panics. -/
def tick (tickRate : ℕ) : Option ℕ :=
  let divisor := tickRate % 2 ^ 32
  if divisor = 0 then none else some (10 ^ 9 / divisor)

/-- `while *next_tick <= now { *next_tick += job.tick }`, given up after `fuel` tests. -/
def catchUpLoop (tick now : ℕ) : ℕ → ℕ → Option ℕ
  | 0, _ => none
  | fuel + 1, nextTick =>
    if nextTick ≤ now then catchUpLoop tick now fuel (nextTick + tick) else some nextTick

/-- The greatest divisor of `rate` that is at most `bound`. -/
theorem isGreatest_searchBatch {rate bound : ℕ} (h : 1 ≤ bound) :
    IsGreatest {d | d ∣ rate ∧ d ≤ bound} (searchBatch rate bound) := by
  induction bound with
  | zero => omega
  | succ bound ih =>
    rw [searchBatch]
    by_cases hdvd : bound + 1 ∣ rate
    · rw [if_neg (fun hne => hne.2 (Nat.mod_eq_zero_of_dvd hdvd))]
      exact ⟨⟨hdvd, le_rfl⟩, fun d hd => hd.2⟩
    · have hbound : 1 ≤ bound := by
        by_contra hzero
        obtain rfl : bound = 0 := by omega
        exact hdvd (one_dvd rate)
      rw [if_pos ⟨by omega, fun hmod => hdvd (Nat.dvd_of_mod_eq_zero hmod)⟩]
      obtain ⟨⟨hmem, hle⟩, hgreatest⟩ := ih hbound
      refine ⟨⟨hmem, by omega⟩, ?_⟩
      intro d hd
      have hne : d ≠ bound + 1 := fun heq => hdvd (heq ▸ hd.1)
      have hdle : d ≤ bound + 1 := hd.2
      exact hgreatest ⟨hd.1, by omega⟩

/-- What `rate_batch` returns, in its two branches. -/
theorem rateBatch_ok {rb rate rbs payload batch n : ℕ}
    (h : rateBatch rb rate rbs payload = .ok (batch, n)) :
    n = rate / batch ∧ ((0 < rb ∧ rb ∣ rate ∧ batch = rb) ∨
      (rb = 0 ∧ IsGreatest {d | d ∣ rate ∧ d ≤ max 1 (rbs / max payload 1)} batch)) := by
  unfold rateBatch at h
  by_cases hrb : 0 < rb
  · rw [if_pos hrb] at h
    by_cases hmod : rate % rb ≠ 0
    · rw [if_pos hmod] at h
      cases h
    · rw [if_neg hmod] at h
      cases h
      exact ⟨rfl, .inl ⟨hrb, Nat.dvd_of_mod_eq_zero (not_not.mp hmod), rfl⟩⟩
  · rw [if_neg hrb] at h
    cases h
    rw [max_comm]
    exact ⟨rfl, .inr ⟨by omega, isGreatest_searchBatch (le_max_left _ _)⟩⟩

theorem rateBatch_error_iff {rb rate rbs payload : ℕ} :
    (∃ e, rateBatch rb rate rbs payload = .error e) ↔ 0 < rb ∧ ¬ rb ∣ rate := by
  unfold rateBatch
  by_cases hrb : 0 < rb
  · by_cases hdvd : rb ∣ rate
    · rw [if_pos hrb, if_neg (not_not.mpr (Nat.mod_eq_zero_of_dvd hdvd))]
      simp [hdvd]
    · rw [if_pos hrb, if_pos (fun hmod => hdvd (Nat.dvd_of_mod_eq_zero hmod))]
      simp [hrb, hdvd]
  · rw [if_neg hrb]
    simp [hrb]

theorem dvd_of_rateBatch {rb rate rbs payload batch n : ℕ}
    (h : rateBatch rb rate rbs payload = .ok (batch, n)) : batch ∣ rate := by
  rcases (rateBatch_ok h).2 with ⟨_, hdvd, rfl⟩ | ⟨_, hgreatest⟩
  · exact hdvd
  · exact hgreatest.1.1

/-- `rate_batch` rejects what does not divide the rate, and else sends exactly the rate. -/
theorem rateBatch_exact {rate : ℕ} (hrate : 1 ≤ rate) (rb rbs payload : ℕ) :
    ((∃ e, rateBatch rb rate rbs payload = .error e) ↔ 0 < rb ∧ ¬ rb ∣ rate) ∧
    ∀ batch n, rateBatch rb rate rbs payload = .ok (batch, n) →
      1 ≤ batch ∧ 1 ≤ n ∧ batch * n = rate ∧ (0 < rb → batch = rb) ∧
      (rb = 0 → IsGreatest {d | d ∣ rate ∧ d ≤ max 1 (rbs / max payload 1)} batch ∧
        (payload ≤ rbs → batch * payload ≤ rbs)) := by
  refine ⟨rateBatch_error_iff, ?_⟩
  intro batch n h
  obtain ⟨rfl, hcases⟩ := rateBatch_ok h
  have hdvd := dvd_of_rateBatch h
  have hpos : 0 < batch := Nat.pos_of_dvd_of_pos hdvd hrate
  refine ⟨hpos, Nat.div_pos (Nat.le_of_dvd hrate hdvd) hpos, Nat.mul_div_cancel' hdvd, ?_, ?_⟩
  · intro hrb
    rcases hcases with ⟨_, _, rfl⟩ | ⟨hzero, _⟩
    · rfl
    · omega
  · intro hrb
    rcases hcases with ⟨hne, _, _⟩ | ⟨_, hgreatest⟩
    · omega
    · refine ⟨hgreatest, ?_⟩
      intro hfits
      have hle : batch ≤ max 1 (rbs / max payload 1) := hgreatest.1.2
      rcases Nat.eq_zero_or_pos payload with rfl | hpay
      · omega
      · rw [max_eq_left (by omega : 1 ≤ payload), max_eq_right (Nat.div_pos hfits hpay)] at hle
        exact (Nat.mul_le_mul_right payload hle).trans (Nat.div_mul_le_self rbs payload)

theorem rateBatch_exact_default :
    rateBatch 0 200 16384 1024 = .ok (10, 20) ∧ 10 * 20 = 200 :=
  have h : rateBatch 0 200 16384 1024 = .ok (10, 20) := by decide +kernel
  ⟨h, ((rateBatch_exact (by decide) 0 16384 1024).2 10 20 h).2.2.1⟩

/-- With a positive tick the loop ends, where `catchUp` says. -/
theorem catchUpLoop_of_pos {tick : ℕ} (h : 0 < tick) (now nextTick : ℕ) :
    ∃ fuel, catchUpLoop tick now fuel nextTick =
      some (if nextTick ≤ now then catchUp nextTick now tick else nextTick) := by
  induction hgap : now + 1 - nextTick using Nat.strong_induction_on generalizing nextTick with
  | _ gap ih =>
    by_cases hle : nextTick ≤ now
    · obtain ⟨fuel, hfuel⟩ := ih (now + 1 - (nextTick + tick)) (by omega) (nextTick + tick) rfl
      refine ⟨fuel + 1, ?_⟩
      rw [catchUpLoop, if_pos hle, hfuel, if_pos hle]
      by_cases hagain : nextTick + tick ≤ now
      · have hdiv : (now - nextTick) / tick = (now - (nextTick + tick)) / tick + 1 := by
          rw [show now - nextTick = now - (nextTick + tick) + tick by omega, Nat.add_div_right _ h]
        rw [if_pos hagain, catchUp, catchUp, hdiv]
        congr 1
        ring
      · have hdiv : (now - nextTick) / tick = 0 := Nat.div_eq_of_lt (by omega)
        rw [if_neg hagain, catchUp, hdiv]
        simp
    · exact ⟨1, by rw [catchUpLoop, if_neg hle, if_neg hle]⟩

/-- With a tick of zero the loop that is entered does not end. -/
theorem catchUpLoop_zero {now nextTick : ℕ} (h : nextTick ≤ now) (fuel : ℕ) :
    catchUpLoop 0 now fuel nextTick = none := by
  induction fuel with
  | zero => rfl
  | succ fuel ih => rw [catchUpLoop, if_pos h, Nat.add_zero, ih]

/-- The tick for `tickRate` is there, is of the rate asked for, is positive, and the loop of
`drive_rate` that steps by it ends. -/
def Ticks (tickRate : ℕ) : Prop :=
  ∃ t, tick tickRate = some t ∧ tickRate % 2 ^ 32 = tickRate ∧ 0 < t ∧
    ∀ nextTick now, ∃ fuel v, catchUpLoop t now fuel nextTick = some v

theorem ticks_iff {tickRate : ℕ} (hpos : 0 < tickRate) : Ticks tickRate ↔ tickRate ≤ 10 ^ 9 := by
  constructor
  · rintro ⟨t, htick, hmod, ht, -⟩
    rw [tick, hmod, if_neg hpos.ne', Option.some.injEq] at htick
    by_contra hlarge
    rw [Nat.div_eq_of_lt (not_le.mp hlarge)] at htick
    omega
  · intro hle
    have hmod : tickRate % 2 ^ 32 = tickRate := Nat.mod_eq_of_lt (by omega)
    have ht : 0 < 10 ^ 9 / tickRate := Nat.div_pos hle hpos
    refine ⟨10 ^ 9 / tickRate, ?_, hmod, ht, ?_⟩
    · rw [tick, hmod, if_neg hpos.ne']
    · intro nextTick now
      obtain ⟨fuel, hfuel⟩ := catchUpLoop_of_pos ht now nextTick
      exact ⟨fuel, _, hfuel⟩

theorem asUsize_of_nonneg {x : ℤ} (h0 : 0 ≤ x) (h : x < 2 ^ 64) : asUsize x = x.toNat := by
  rw [asUsize, Int.emod_eq_of_lt h0 h]

theorem asUsize_toInt {x : Int64} (h : 0 ≤ x.toInt) : asUsize x.toInt = x.toInt.toNat :=
  asUsize_of_nonneg h (by have := x.toInt_lt; omega)

theorem asUsize_max_one (x : Int64) : asUsize (max x.toInt 1) = (max x.toInt 1).toNat :=
  asUsize_of_nonneg (by omega) (by have := x.toInt_lt; omega)

theorem rateSend_pos (f : Flags) : 0 < f.rateSend := by
  rw [Flags.rateSend, asUsize_max_one]
  omega

theorem payload_pos (f : Flags) : 0 < f.payload := by
  rw [Flags.payload, asUsize_max_one]
  omega

/-- `main` goes on with the plan of `rate_batch` for a `-rb` that is not negative. -/
theorem ratePlan_ok {f : Flags} {plan : ℕ × ℕ} (h : ratePlan f = .ok plan) :
    0 ≤ f.rb.toInt ∧
      rateBatch f.rb.toInt.toNat f.rateSend (asUsize (max f.rbs.toInt 1)) f.payload = .ok plan := by
  simp only [ratePlan] at h
  split at h
  · cases h
  · rename_i plan' hbatch
    by_cases hneg : f.rb.toInt < 0
    · rw [if_pos hneg] at h
      cases h
    · rw [if_neg hneg] at h
      cases h
      rw [max_eq_left (by omega), asUsize_toInt (by omega)] at hbatch
      exact ⟨by omega, hbatch⟩

/-- A burst a nanosecond is enough: for the batch `-rb` asks for, or for one that `-rb=0` may
take. -/
def Flags.Paced (f : Flags) : Prop :=
  (0 < f.rb.toInt ∧ f.rateSend ≤ 10 ^ 9 * f.rb.toInt.toNat) ∨
    (f.rb.toInt = 0 ∧ ∃ d, d ∣ f.rateSend ∧ d ≤ max 1 (asUsize (max f.rbs.toInt 1) / f.payload) ∧
      f.rateSend ≤ 10 ^ 9 * d)

theorem div_le_iff_of_dvd {rate batch : ℕ} (h : batch ∣ rate) (hpos : 0 < batch) :
    rate / batch ≤ 10 ^ 9 ↔ rate ≤ 10 ^ 9 * batch := by
  obtain ⟨n, rfl⟩ := h
  rw [Nat.mul_div_cancel_left n hpos, Nat.mul_comm batch n]
  exact (Nat.mul_le_mul_right_iff hpos).symm

/-- Which flags that `main` accepts give a tick that `drive_rate` can step by. -/
theorem ticks_ratePlan_iff {f : Flags} {batch tickRate : ℕ}
    (h : ratePlan f = .ok (batch, tickRate)) : Ticks tickRate ↔ f.Paced := by
  obtain ⟨hrb, hbatch⟩ := ratePlan_ok h
  obtain ⟨hrate, hcases⟩ := rateBatch_ok hbatch
  have hdvd := dvd_of_rateBatch hbatch
  have hpos : 0 < batch := Nat.pos_of_dvd_of_pos hdvd (rateSend_pos f)
  have htick : 0 < tickRate := hrate ▸ Nat.div_pos (Nat.le_of_dvd (rateSend_pos f) hdvd) hpos
  rw [ticks_iff htick, hrate, div_le_iff_of_dvd hdvd hpos]
  rcases hcases with ⟨hne, _, rfl⟩ | ⟨hzero, hgreatest⟩
  · constructor
    · exact fun hle => .inl ⟨by omega, hle⟩
    · rintro (⟨_, hle⟩ | ⟨hzero, _⟩)
      · exact hle
      · omega
  · rw [max_eq_left (a := f.payload) (payload_pos f)] at hgreatest
    constructor
    · exact fun hle => .inr ⟨by omega, batch, hgreatest.1.1, hgreatest.1.2, hle⟩
    · rintro (⟨hne, _⟩ | ⟨_, d, hd, hdle, hle⟩)
      · omega
      · exact hle.trans (Nat.mul_le_mul_left _ (hgreatest.2 ⟨hd, hdle⟩))

theorem ticks_ratePlan_default :
    ratePlan (Flags.mk 0 200 16384 1024) = .ok (10, 20) ∧
      (Ticks 20 ↔ (Flags.mk 0 200 16384 1024).Paced) :=
  have h : ratePlan (Flags.mk 0 200 16384 1024) = .ok (10, 20) := by decide +kernel
  ⟨h, ticks_ratePlan_iff h⟩

/-- A rate of `2 ^ 32` in batches of one: the rate is cut to zero and the division panics. -/
theorem ticks_ratePlan_cut :
    ratePlan (Flags.mk 1 4294967296 16384 1024) = .ok (1, 4294967296) ∧ tick 4294967296 = none ∧
      ¬ Ticks 4294967296 := by
  refine ⟨by decide +kernel, by decide +kernel, ?_⟩
  rw [ticks_iff (by decide)]
  decide

end RatePlan

end Http3Bench
