import Mathlib.Algebra.Order.Field.Power
import Mathlib.Data.Int.Log
import Mathlib.Data.Rat.Floor
import Mathlib.Order.WithBot
import Mathlib.Tactic

/-!
# Non-negative doubles

IEEE 754 arithmetic on binary64 numbers that are not negative: each operation is the exact one on
rationals, rounded to the nearest double, a tie to the even one. `⊤` is the infinity.
-/

namespace Http3Bench.Lib.Binary64

/-- To the nearest natural number, a tie to the even one. -/
def nearestEven (x : ℚ) : ℕ :=
  let below := ⌊x⌋₊
  let past := x - below
  if past < 1 / 2 ∨ past = 1 / 2 ∧ below % 2 = 0 then below else below + 1

/-- The distance of the doubles around `x`: 53 digits from its first one on, none below `2 ^ -1074`. -/
def ulp (x : ℚ) : ℚ := 2 ^ max (Int.log 2 x - 52) (-1074)

def round (x : ℚ) : WithTop ℚ :=
  let y := nearestEven (x / ulp x) * ulp x
  if y < 2 ^ 1024 then (y : ℚ) else ⊤

def add : WithTop ℚ → WithTop ℚ → WithTop ℚ
  | some x, some y => round (x + y)
  | _, _ => ⊤

/-- The product; nothing is multiplied with an infinity but what is positive. -/
def mul : WithTop ℚ → WithTop ℚ → WithTop ℚ
  | some x, some y => round (x * y)
  | _, _ => ⊤

/-! ### The nearest natural number -/

theorem nearestEven_error {x : ℚ} (hx : 0 ≤ x) : |(nearestEven x : ℚ) - x| ≤ 1 / 2 := by
  have hbelow : ((⌊x⌋₊ : ℕ) : ℚ) ≤ x := Nat.floor_le hx
  have habove : x < (⌊x⌋₊ : ℕ) + 1 := Nat.lt_floor_add_one x
  unfold nearestEven
  dsimp only
  rw [abs_le]
  split_ifs with h
  · have hpast : x - (⌊x⌋₊ : ℕ) ≤ 1 / 2 := by
      rcases h with hlt | ⟨heq, -⟩
      · exact hlt.le
      · exact heq.le
    constructor <;> linarith
  · rw [not_or] at h
    have hpast : 1 / 2 ≤ x - (⌊x⌋₊ : ℕ) := not_lt.mp h.1
    push_cast
    constructor <;> linarith

theorem nearestEven_eq {x : ℚ} (hx : 0 ≤ x) {n : ℕ} (h : |x - n| < 1 / 2) : nearestEven x = n := by
  have herror := abs_le.mp (nearestEven_error hx)
  have hnear := abs_lt.mp h
  have hlow : (nearestEven x : ℚ) < n + 1 := by linarith
  have hhigh : (n : ℚ) < nearestEven x + 1 := by linarith
  have hlow : nearestEven x < n + 1 := by exact_mod_cast hlow
  have hhigh : n < nearestEven x + 1 := by exact_mod_cast hhigh
  omega

theorem le_nearestEven {x : ℚ} {n : ℕ} (h : n ≤ x) : n ≤ nearestEven x := by
  have hfloor : n ≤ ⌊x⌋₊ := Nat.le_floor h
  unfold nearestEven
  dsimp only
  split_ifs <;> omega

theorem nearestEven_le {x : ℚ} (hx : 0 ≤ x) {n : ℕ} (h : x < n) : nearestEven x ≤ n := by
  have herror := abs_le.mp (nearestEven_error hx)
  have hlt : (nearestEven x : ℚ) < n + 1 := by linarith
  exact Nat.lt_succ_iff.mp (by exact_mod_cast hlt)

/-! ### The doubles around a number -/

theorem ulp_pos (x : ℚ) : 0 < ulp x := by
  unfold ulp
  positivity

theorem lt_ulp (x : ℚ) : x < 2 ^ 53 * ulp x := by
  have hlog : x < 2 ^ (Int.log 2 x + 1) := Int.lt_zpow_succ_log_self (by norm_num) x
  have hexp : Int.log 2 x + 1 ≤ 53 + max (Int.log 2 x - 52) (-1074) := by omega
  calc x < 2 ^ (Int.log 2 x + 1) := hlog
    _ ≤ 2 ^ (53 + max (Int.log 2 x - 52) (-1074)) := zpow_le_zpow_right₀ (by norm_num) hexp
    _ = 2 ^ 53 * ulp x := by
      rw [zpow_add₀ (by norm_num), ulp]
      norm_num

theorem ulp_le {x : ℚ} (hx : 2 ^ (-1022 : ℤ) ≤ x) : ulp x ≤ x * 2 ^ (-52 : ℤ) := by
  have hpos : 0 < x := lt_of_lt_of_le (by positivity) hx
  have hlog : (2 : ℚ) ^ Int.log 2 x ≤ x := Int.zpow_log_le_self (by norm_num) hpos
  have hexp : -1022 ≤ Int.log 2 x := (Int.zpow_le_iff_le_log (by norm_num) hpos).mp hx
  rw [ulp, max_eq_left (by omega), sub_eq_add_neg, zpow_add₀ (by norm_num)]
  exact mul_le_mul_of_nonneg_right hlog (by positivity)

/-- A double is a number of at most 53 digits, moved by some places. -/
theorem exists_digits {x y : ℚ} (hx : 0 ≤ x) (h : round x = (y : ℚ)) :
    ∃ (m : ℕ) (e : ℤ), m ≤ 2 ^ 53 ∧ y = m * 2 ^ e := by
  refine ⟨nearestEven (x / ulp x), max (Int.log 2 x - 52) (-1074), ?_, ?_⟩
  · apply nearestEven_le (div_nonneg hx (ulp_pos x).le)
    rw [div_lt_iff₀ (ulp_pos x)]
    exact_mod_cast lt_ulp x
  · unfold round at h
    dsimp only at h
    split_ifs at h with hfits
    · exact (WithTop.coe_injective h).symm
    · cases h

/-- The relative error of one rounding. -/
theorem round_error {x : ℚ} (hx : x = 0 ∨ 2 ^ (-1022 : ℤ) ≤ x) (hfits : x < 2 ^ 1023) :
    ∃ y : ℚ, round x = (y : ℚ) ∧ |y - x| ≤ x * 2 ^ (-53 : ℤ) := by
  rcases hx with rfl | hx
  · refine ⟨0, ?_, by norm_num⟩
    decide +kernel
  · have hpos : 0 < x := lt_of_lt_of_le (by positivity) hx
    have hulp := ulp_pos x
    have hnear : |nearestEven (x / ulp x) * ulp x - x| ≤ x * 2 ^ (-53 : ℤ) := by
      calc |nearestEven (x / ulp x) * ulp x - x|
          = |(nearestEven (x / ulp x) : ℚ) - x / ulp x| * ulp x := by
            rw [← abs_of_pos hulp, ← abs_mul, abs_of_pos hulp, sub_mul, div_mul_cancel₀ x hulp.ne']
        _ ≤ 1 / 2 * ulp x :=
            mul_le_mul_of_nonneg_right (nearestEven_error (div_nonneg hpos.le hulp.le)) hulp.le
        _ ≤ 1 / 2 * (x * 2 ^ (-52 : ℤ)) := mul_le_mul_of_nonneg_left (ulp_le hx) (by norm_num)
        _ = x * 2 ^ (-53 : ℤ) := by ring
    refine ⟨nearestEven (x / ulp x) * ulp x, ?_, hnear⟩
    have hfinite : nearestEven (x / ulp x) * ulp x < 2 ^ 1024 := by
      have hbound := (abs_le.mp hnear).2
      have hsmall : x * 2 ^ (-53 : ℤ) ≤ x * 1 :=
        mul_le_mul_of_nonneg_left (by norm_num) hpos.le
      rw [show (2 : ℚ) ^ 1024 = 2 ^ 1023 * 2 from pow_succ 2 1023]
      generalize (2 : ℚ) ^ 1023 = top at hfits ⊢
      linarith
    unfold round
    dsimp only
    rw [if_pos hfinite]

/-! ### What arithmetic comes to -/

/-- What an operation can come to. -/
def Double (t : WithTop ℚ) : Prop := t = ⊤ ∨ ∃ x : ℚ, 0 ≤ x ∧ t = round x

theorem Double.round {x : ℚ} (hx : 0 ≤ x) : Double (round x) := .inr ⟨x, hx, rfl⟩

theorem double_zero : Double 0 := .inr ⟨0, le_rfl, by decide +kernel⟩

theorem Double.nonneg {y : ℚ} (h : Double (y : WithTop ℚ)) : 0 ≤ y := by
  rcases h with h | ⟨x, hx, h⟩
  · cases h
  · obtain ⟨m, e, -, rfl⟩ := exists_digits hx h.symm
    positivity

theorem Double.add {s t : WithTop ℚ} (hs : Double s) (ht : Double t) : Double (add s t) := by
  cases s with
  | top => exact .inl rfl
  | coe x =>
    cases t with
    | top => exact .inl rfl
    | coe y => exact Double.round (add_nonneg hs.nonneg ht.nonneg)

theorem Double.mul {s t : WithTop ℚ} (hs : Double s) (ht : Double t) : Double (mul s t) := by
  cases s with
  | top => exact .inl rfl
  | coe x =>
    cases t with
    | top => exact .inl rfl
    | coe y => exact Double.round (mul_nonneg hs.nonneg ht.nonneg)

/-- Below a power of two there is no double for some way. -/
theorem Double.le_of_lt_two_pow {y : ℚ} (h : Double (y : WithTop ℚ)) {e : ℕ} (hlt : y < 2 ^ e) :
    y ≤ 2 ^ e - 2 ^ ((e : ℤ) - 53) := by
  obtain ⟨m, k, hm, rfl⟩ : ∃ (m : ℕ) (k : ℤ), m ≤ 2 ^ 53 ∧ y = m * 2 ^ k := by
    rcases h with h | ⟨x, hx, h⟩
    · cases h
    · exact exists_digits hx h.symm
  have hpos : (0 : ℚ) < 2 ^ k := by positivity
  have hhalf : (2 : ℚ) ^ ((e : ℤ) - 53) ≤ 2 ^ ((e : ℤ) - 1) :=
    zpow_le_zpow_right₀ (by norm_num) (by omega)
  have htwo : (2 : ℚ) ^ e = 2 ^ ((e : ℤ) - 1) * 2 := by
    rw [← zpow_natCast, ← zpow_add_one₀ (by norm_num), sub_add_cancel]
  rcases Nat.eq_zero_or_pos m with rfl | hmpos
  · rw [Nat.cast_zero, zero_mul]
    linarith [show (0 : ℚ) < 2 ^ ((e : ℤ) - 1) from by positivity]
  · rcases le_or_gt ((e : ℤ) - 53) k with hk | hk
    · -- the power of two is a multiple of the distance of the doubles below it
      have hsmall : (2 : ℚ) ^ ((e : ℤ) - 53) ≤ 2 ^ k := zpow_le_zpow_right₀ (by norm_num) hk
      have hone : (1 : ℚ) ≤ m := by exact_mod_cast hmpos
      have hke : k < e := by
        rw [← zpow_lt_zpow_iff_right₀ (by norm_num : (1 : ℚ) < 2), zpow_natCast]
        nlinarith
      obtain ⟨d, hd⟩ := Int.eq_ofNat_of_zero_le (sub_nonneg.mpr hke.le)
      have hsplit : (2 : ℚ) ^ e = 2 ^ d * 2 ^ k := by
        rw [← zpow_natCast, ← zpow_natCast, ← zpow_add₀ (by norm_num), ← hd, sub_add_cancel]
      rw [hsplit] at hlt ⊢
      have hless : (m : ℚ) < 2 ^ d := lt_of_mul_lt_mul_right hlt hpos.le
      have hless : m + 1 ≤ 2 ^ d := by exact_mod_cast hless
      have hless : (m : ℚ) + 1 ≤ 2 ^ d := by exact_mod_cast hless
      nlinarith
    · -- 53 digits do not reach it
      have hdigits : (m : ℚ) ≤ 2 ^ 53 := by exact_mod_cast hm
      have hmul : (m : ℚ) * 2 ^ k ≤ 2 ^ (53 + k) := by
        rw [zpow_add₀ (by norm_num)]
        exact mul_le_mul_of_nonneg_right (by exact_mod_cast hdigits) hpos.le
      have hle : (2 : ℚ) ^ (53 + k) ≤ 2 ^ ((e : ℤ) - 1) :=
        zpow_le_zpow_right₀ (by norm_num) (by omega)
      linarith

/-! ### The error of several roundings -/

/-- `y` is `x` after at most `j` roundings. -/
structure Within (j : ℕ) (x y : ℚ) : Prop where
  low : x * (1 - 2 ^ (-53 : ℤ)) ^ j ≤ y
  high : y ≤ x * (1 + 2 ^ (-53 : ℤ)) ^ j

namespace Within

variable {i j : ℕ} {a b x y : ℚ}

theorem refl (x : ℚ) : Within 0 x x := ⟨by simp, by simp⟩

theorem mono (hx : 0 ≤ x) (h : Within i x y) (hij : i ≤ j) : Within j x y := by
  have hlow : (1 - 2 ^ (-53 : ℤ) : ℚ) ^ j ≤ (1 - 2 ^ (-53 : ℤ)) ^ i :=
    pow_le_pow_of_le_one (by norm_num) (by norm_num) hij
  have hhigh : (1 + 2 ^ (-53 : ℤ) : ℚ) ^ i ≤ (1 + 2 ^ (-53 : ℤ)) ^ j :=
    pow_le_pow_right₀ (by norm_num) hij
  exact ⟨(mul_le_mul_of_nonneg_left hlow hx).trans h.low,
    h.high.trans (mul_le_mul_of_nonneg_left hhigh hx)⟩

theorem nonneg (hx : 0 ≤ x) (h : Within j x y) : 0 ≤ y :=
  (mul_nonneg hx (pow_nonneg (by norm_num) j)).trans h.low

theorem add (h : Within j a x) (h' : Within j b y) : Within j (a + b) (x + y) := by
  constructor
  · rw [add_mul]
    exact add_le_add h.low h'.low
  · rw [add_mul]
    exact add_le_add h.high h'.high

theorem mul (ha : 0 ≤ a) (hb : 0 ≤ b) (h : Within i a x) (h' : Within j b y) :
    Within (i + j) (a * b) (x * y) := by
  have hlow : ∀ n : ℕ, (0 : ℚ) ≤ (1 - 2 ^ (-53 : ℤ)) ^ n := fun n => pow_nonneg (by norm_num) n
  have hhigh : ∀ n : ℕ, (0 : ℚ) ≤ (1 + 2 ^ (-53 : ℤ)) ^ n := fun n => pow_nonneg (by norm_num) n
  constructor
  · rw [pow_add, mul_mul_mul_comm]
    exact mul_le_mul h.low h'.low (mul_nonneg hb (hlow j)) (h.nonneg ha)
  · rw [pow_add, mul_mul_mul_comm]
    exact mul_le_mul h.high h'.high (h'.nonneg hb) (mul_nonneg ha (hhigh i))

/-- One more rounding, far from the ends of the range. -/
theorem round (h : Within j a x) (ha : a = 0 ∨ 2 ^ (-100 : ℤ) ≤ a) (hfits : a ≤ 2 ^ 100)
    (hj : j ≤ 16) : ∃ y : ℚ, Binary64.round x = (y : ℚ) ∧ Within (j + 1) a y := by
  have hpos : 0 ≤ a := by
    rcases ha with rfl | ha
    · exact le_rfl
    · exact le_trans (by positivity) ha
  have hrange : x = 0 ∨ 2 ^ (-1022 : ℤ) ≤ x := by
    rcases ha with rfl | ha
    · have hlow := h.low
      have hhigh := h.high
      rw [zero_mul] at hlow hhigh
      exact .inl (le_antisymm hhigh hlow)
    · right
      have hshrink : (1 / 2 : ℚ) ^ 16 ≤ (1 - 2 ^ (-53 : ℤ)) ^ j :=
        (pow_le_pow_of_le_one (by norm_num) (by norm_num) hj).trans
          (pow_le_pow_left₀ (by norm_num) (by norm_num) j)
      calc (2 : ℚ) ^ (-1022 : ℤ) ≤ 2 ^ (-116 : ℤ) := zpow_le_zpow_right₀ (by norm_num) (by norm_num)
        _ = 2 ^ (-100 : ℤ) * (1 / 2) ^ 16 := by norm_num
        _ ≤ a * (1 - 2 ^ (-53 : ℤ)) ^ j := mul_le_mul ha hshrink (by positivity) hpos
        _ ≤ x := h.low
  have hless : x < 2 ^ 1023 := by
    have hgrow : (1 + 2 ^ (-53 : ℤ) : ℚ) ^ j ≤ 2 ^ 16 :=
      (pow_le_pow_left₀ (by norm_num) (by norm_num) j).trans
        (pow_le_pow_right₀ (by norm_num) hj)
    calc x ≤ a * (1 + 2 ^ (-53 : ℤ)) ^ j := h.high
      _ ≤ 2 ^ 100 * 2 ^ 16 := mul_le_mul hfits hgrow (pow_nonneg (by norm_num) j) (by norm_num)
      _ = 2 ^ 116 := by norm_num
      _ < 2 ^ 1023 := pow_lt_pow_right₀ (by norm_num) (by norm_num)
  obtain ⟨y, hy, herror⟩ := round_error hrange hless
  obtain ⟨hbelow, habove⟩ := abs_le.mp herror
  refine ⟨y, hy, ?_, ?_⟩
  · have hstep := mul_le_mul_of_nonneg_right h.low (by norm_num : (0 : ℚ) ≤ 1 - 2 ^ (-53 : ℤ))
    rw [mul_assoc, ← pow_succ] at hstep
    linarith
  · have hstep := mul_le_mul_of_nonneg_right h.high (by norm_num : (0 : ℚ) ≤ 1 + 2 ^ (-53 : ℤ))
    rw [mul_assoc, ← pow_succ] at hstep
    linarith

end Within

/-- The double next to a tenth. -/
example : round (1 / 10) = ((3602879701896397 / 2 ^ 55 : ℚ) : WithTop ℚ) := by decide +kernel

end Http3Bench.Lib.Binary64
