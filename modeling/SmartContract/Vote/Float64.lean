import Mathlib.Data.Int.Log
import Mathlib.Data.Rat.Floor
/-!
# SmartContract.Vote.Float64

**The `float64` arithmetic of the vote code**: conversions of counts, products with the
constants `0.5` and `0.67`, and the turnout quotient, each rounded as IEEE 754 binary64
rounds, to the nearest value with 53 significant bits, ties to even.

Design points:

* A finite value is the rational it denotes, and `round53` is the one rounding; every value
  here is a count below `2 ^ 64`, a product of one with a constant below 1, or a quotient of
  two counts, so the exponent range of binary64 is never left and subnormals never arise.
* The binade of `q` is `2 ^ Int.log 2 q`, from Mathlib, and it holds `2 ^ 52` steps of one
  unit in the last place.
* Only the turnout quotient can be infinite or `NaN` (a division by zero holders), so only
  it is a `Float64`; Go's ordered comparisons are false on `NaN`.
* The vote code needs four properties of rounding: it is monotone (`round53_mono`: a larger
  count never converts to a smaller `float64`), doubling and halving are exact
  (`round53_two_mul`, `round53_half`), a `float64` rounds to itself (`round53_round53`), and
  the error is below one part in `2 ^ 52` (`sub_div_lt_round53`).
-/

namespace SmartContract.Voting

/-! ### Rounding -/

/-- Round to the nearest integer, ties to even. -/
def roundHalfEven (x : ℚ) : Int :=
  if x - ⌊x⌋ < 1 / 2 then ⌊x⌋
  else if 1 / 2 < x - ⌊x⌋ then ⌊x⌋ + 1
  else if ⌊x⌋ % 2 = 0 then ⌊x⌋ else ⌊x⌋ + 1

theorem floor_le_roundHalfEven (x : ℚ) : ⌊x⌋ ≤ roundHalfEven x := by
  unfold roundHalfEven; split_ifs <;> omega

theorem roundHalfEven_le_floor_add_one (x : ℚ) : roundHalfEven x ≤ ⌊x⌋ + 1 := by
  unfold roundHalfEven; split_ifs <;> omega

theorem roundHalfEven_mono {x y : ℚ} (h : x ≤ y) : roundHalfEven x ≤ roundHalfEven y := by
  rcases (Int.floor_mono h).lt_or_eq with hlt | heq
  · calc roundHalfEven x ≤ ⌊x⌋ + 1 := roundHalfEven_le_floor_add_one x
      _ ≤ ⌊y⌋ := hlt
      _ ≤ roundHalfEven y := floor_le_roundHalfEven y
  · -- one integer part: the fractional parts are ordered as `x` and `y` are
    have hfrac : x - ⌊y⌋ ≤ y - ⌊y⌋ := by linarith
    unfold roundHalfEven
    rw [heq]
    split_ifs <;> first | omega | (exfalso; linarith)

/-- `q ≥ 0` rounded to the nearest `float64`, ties to even. -/
def round53 (q : ℚ) : ℚ :=
  if q ≤ 0 then 0
  else roundHalfEven (q / 2 ^ (Int.log 2 q - 52)) * 2 ^ (Int.log 2 q - 52)

theorem round53_zero : round53 0 = 0 := by simp [round53]

theorem two_pow_mul_zpow (n : ℕ) (e : ℤ) : (2 : ℚ) ^ n * 2 ^ e = 2 ^ ((n : ℤ) + e) := by
  rw [zpow_add₀ two_ne_zero, zpow_natCast]

/-- `2 ^ Int.log 2 q` is the binade of a positive `q`: `q` lies in `[2 ^ L, 2 ^ (L + 1))`. -/
theorem zpow_log_le {q : ℚ} (hq : 0 < q) : (2 : ℚ) ^ Int.log 2 q ≤ q := by
  exact_mod_cast Int.zpow_log_le_self (by norm_num : 1 < 2) hq

theorem lt_zpow_log_succ (q : ℚ) : q < (2 : ℚ) ^ (Int.log 2 q + 1) := by
  exact_mod_cast Int.lt_zpow_succ_log_self (by norm_num : 1 < 2) q

/-- A positive `q` scaled into its binade lies in `[2 ^ 52, 2 ^ 53)`. -/
theorem scaled_mem_binade {q : ℚ} (hq : 0 < q) :
    (2 : ℚ) ^ 52 ≤ q / 2 ^ (Int.log 2 q - 52) ∧ q / 2 ^ (Int.log 2 q - 52) < 2 ^ 53 := by
  have hpos : (0 : ℚ) < 2 ^ (Int.log 2 q - 52) := zpow_pos two_pos _
  rw [le_div_iff₀ hpos, div_lt_iff₀ hpos, two_pow_mul_zpow, two_pow_mul_zpow]
  constructor
  · convert zpow_log_le hq using 2; ring
  · convert lt_zpow_log_succ q using 2; ring

/-- Rounding a value of `[2 ^ 52, 2 ^ 53)` to an integer stays in `[2 ^ 52, 2 ^ 53]`. -/
theorem roundHalfEven_mem_binade {x : ℚ} (hlo : 2 ^ 52 ≤ x) (hhi : x < 2 ^ 53) :
    (2 : ℚ) ^ 52 ≤ roundHalfEven x ∧ (roundHalfEven x : ℚ) ≤ 2 ^ 53 := by
  have h1 : (2 ^ 52 : ℤ) ≤ ⌊x⌋ := Int.le_floor.mpr (by exact_mod_cast hlo)
  have h2 : ⌊x⌋ < 2 ^ 53 := Int.floor_lt.mpr (by exact_mod_cast hhi)
  have h3 := floor_le_roundHalfEven x
  have h4 := roundHalfEven_le_floor_add_one x
  exact ⟨by exact_mod_cast h1.trans h3, by exact_mod_cast h4.trans (by omega)⟩

/-- A positive `q` rounds into `[2 ^ L, 2 ^ (L + 1)]`, `2 ^ L` its binade. -/
theorem round53_mem_binade {q : ℚ} (hq : 0 < q) :
    2 ^ Int.log 2 q ≤ round53 q ∧ round53 q ≤ 2 ^ (Int.log 2 q + 1) := by
  obtain ⟨hlo, hhi⟩ := roundHalfEven_mem_binade (scaled_mem_binade hq).1 (scaled_mem_binade hq).2
  have hpos : (0 : ℚ) < 2 ^ (Int.log 2 q - 52) := zpow_pos two_pos _
  simp only [round53, not_le.mpr hq, ite_false]
  constructor
  · calc (2 : ℚ) ^ Int.log 2 q = 2 ^ 52 * 2 ^ (Int.log 2 q - 52) := by
          rw [two_pow_mul_zpow]; ring_nf
      _ ≤ _ := mul_le_mul_of_nonneg_right hlo hpos.le
  · calc _ ≤ (2 : ℚ) ^ 53 * 2 ^ (Int.log 2 q - 52) := mul_le_mul_of_nonneg_right hhi hpos.le
      _ = 2 ^ (Int.log 2 q + 1) := by rw [two_pow_mul_zpow]; ring_nf

theorem round53_pos {q : ℚ} (hq : 0 < q) : 0 < round53 q :=
  (zpow_pos two_pos _).trans_le (round53_mem_binade hq).1

theorem round53_nonneg (q : ℚ) : 0 ≤ round53 q := by
  by_cases hq : 0 < q
  · exact (round53_pos hq).le
  · simp [round53, not_lt.mp hq]

/-- **Rounding is monotone.** -/
theorem round53_mono {q r : ℚ} (h : q ≤ r) : round53 q ≤ round53 r := by
  by_cases hq : 0 < q
  · have hr : 0 < r := hq.trans_le h
    rcases (Int.log_mono_right hq h : Int.log 2 q ≤ Int.log 2 r).lt_or_eq with hlt | heq
    · calc round53 q ≤ 2 ^ (Int.log 2 q + 1) := (round53_mem_binade hq).2
        _ ≤ 2 ^ Int.log 2 r := zpow_le_zpow_right₀ one_le_two (by omega)
        _ ≤ round53 r := (round53_mem_binade hr).1
    · have hpos : (0 : ℚ) < 2 ^ (Int.log 2 r - 52) := zpow_pos two_pos _
      simp only [round53, not_le.mpr hq, not_le.mpr hr, ite_false, heq]
      exact mul_le_mul_of_nonneg_right
        (by exact_mod_cast roundHalfEven_mono (div_le_div_of_nonneg_right h hpos.le)) hpos.le
  · simp only [round53, not_lt.mp hq, ite_true]
    exact round53_nonneg r

/-! ### Exact operations and the rounding error -/

/-- `2 ^ L` is the binade of every `q` in `[2 ^ L, 2 ^ (L + 1))`. -/
theorem log_eq_of_mem {q : ℚ} {L : ℤ} (hlo : (2 : ℚ) ^ L ≤ q) (hhi : q < 2 ^ (L + 1)) :
    Int.log 2 q = L := by
  have hq : 0 < q := (zpow_pos two_pos L).trans_le hlo
  have h1 := (Int.zpow_le_iff_le_log (by norm_num : 1 < 2) hq).mp (by exact_mod_cast hlo)
  have h2 := (Int.lt_zpow_iff_log_lt (by norm_num : 1 < 2) hq).mp (by exact_mod_cast hhi)
  omega

/-- Rounding an integer to an integer changes nothing. -/
theorem roundHalfEven_intCast (m : ℤ) : roundHalfEven m = m := by
  simp [roundHalfEven, Int.floor_intCast]

/-- A value with 53 significant bits is a `float64`: rounding leaves it alone. -/
theorem round53_intCast_mul_zpow {m : ℤ} (hlo : 2 ^ 52 ≤ m) (hhi : m < 2 ^ 53) (e : ℤ) :
    round53 (m * 2 ^ e) = m * 2 ^ e := by
  have hpos : (0 : ℚ) < 2 ^ e := zpow_pos two_pos e
  have hm1 : (2 : ℚ) ^ 52 ≤ m := by exact_mod_cast hlo
  have hm2 : (m : ℚ) < 2 ^ 53 := by exact_mod_cast hhi
  have hlog : Int.log 2 ((m : ℚ) * 2 ^ e) = e + 52 := by
    apply log_eq_of_mem
    · calc (2 : ℚ) ^ (e + 52) = 2 ^ 52 * 2 ^ e := by rw [zpow_add₀ two_ne_zero, mul_comm]; norm_num
        _ ≤ m * 2 ^ e := mul_le_mul_of_nonneg_right hm1 hpos.le
    · calc (m : ℚ) * 2 ^ e < 2 ^ 53 * 2 ^ e := mul_lt_mul_of_pos_right hm2 hpos
        _ = 2 ^ (e + 52 + 1) := by
          rw [show e + 52 + 1 = e + 53 by ring, zpow_add₀ two_ne_zero, mul_comm]; norm_num
  have hq : ¬(m : ℚ) * 2 ^ e ≤ 0 := not_le.mpr (mul_pos (by linarith) hpos)
  simp only [round53, hq, ite_false, hlog, add_sub_cancel_right, mul_div_cancel_right₀ _ hpos.ne',
    roundHalfEven_intCast]

/-- **Rounding is idempotent**: a `float64` rounds to itself. -/
theorem round53_round53 (q : ℚ) : round53 (round53 q) = round53 q := by
  by_cases hq : 0 < q
  · obtain ⟨hlo, hhi⟩ := roundHalfEven_mem_binade (scaled_mem_binade hq).1 (scaled_mem_binade hq).2
    have hm1 : (2 : ℤ) ^ 52 ≤ roundHalfEven (q / 2 ^ (Int.log 2 q - 52)) := by exact_mod_cast hlo
    have hm2 : roundHalfEven (q / 2 ^ (Int.log 2 q - 52)) ≤ (2 : ℤ) ^ 53 := by exact_mod_cast hhi
    have hr : round53 q = roundHalfEven (q / 2 ^ (Int.log 2 q - 52)) * 2 ^ (Int.log 2 q - 52) := by
      simp [round53, not_le.mpr hq]
    rcases hm2.lt_or_eq with hm2 | hm2
    · rw [hr, round53_intCast_mul_zpow hm1 hm2]
    · -- rounded up to the next binade: `2 ^ 53 * 2 ^ e = 2 ^ 52 * 2 ^ (e + 1)`
      have h52 : (Int.cast ((2 : ℤ) ^ 52) : ℚ) * 2 ^ (Int.log 2 q - 52 + 1) =
          roundHalfEven (q / 2 ^ (Int.log 2 q - 52)) * 2 ^ (Int.log 2 q - 52) := by
        rw [hm2, zpow_add_one₀ two_ne_zero]; push_cast; ring
      rw [hr, ← h52, round53_intCast_mul_zpow le_rfl (by norm_num)]
  · simp [round53, not_lt.mp hq]

/-- **Doubling is exact**: it moves a value one binade up, and its rounding with it. -/
theorem round53_two_mul {q : ℚ} (hq : 0 ≤ q) : round53 (2 * q) = 2 * round53 q := by
  rcases hq.lt_or_eq with hq | rfl
  · have hlog : Int.log 2 (2 * q) = Int.log 2 q + 1 := by
      have hlo := zpow_log_le hq
      have hhi := lt_zpow_log_succ q
      apply log_eq_of_mem <;> rw [zpow_add_one₀ two_ne_zero] <;> linarith
    have he : (2 : ℚ) ^ (Int.log 2 q + 1 - 52) = 2 * 2 ^ (Int.log 2 q - 52) := by
      rw [show Int.log 2 q + 1 - 52 = Int.log 2 q - 52 + 1 by ring, zpow_add_one₀ two_ne_zero, mul_comm]
    simp only [round53, not_le.mpr hq, not_le.mpr (by positivity : (0 : ℚ) < 2 * q), ite_false,
      hlog, he, mul_div_mul_left _ _ (two_ne_zero' ℚ)]
    ring
  · simp [round53]

/-- Halving is exact. -/
theorem round53_half {q : ℚ} (hq : 0 ≤ q) : round53 (q / 2) = round53 q / 2 := by
  have h := round53_two_mul (by positivity : 0 ≤ q / 2)
  rw [mul_div_cancel₀ q two_ne_zero] at h
  linarith

/-- **The rounding error is below one part in `2 ^ 52`.** -/
theorem sub_div_lt_round53 {q : ℚ} (hq : 0 < q) : q - q / 2 ^ 52 < round53 q := by
  have hpos : (0 : ℚ) < 2 ^ (Int.log 2 q - 52) := zpow_pos two_pos _
  have hulp : (2 : ℚ) ^ (Int.log 2 q - 52) ≤ q / 2 ^ 52 := by
    rw [le_div_iff₀ (by positivity), mul_comm, two_pow_mul_zpow]
    convert zpow_log_le hq using 2; ring
  have hfloor := Int.sub_one_lt_floor (q / 2 ^ (Int.log 2 q - 52))
  have hround : ((⌊q / 2 ^ (Int.log 2 q - 52)⌋ : ℤ) : ℚ) ≤ roundHalfEven (q / 2 ^ (Int.log 2 q - 52)) := by
    exact_mod_cast floor_le_roundHalfEven _
  have hlt : q - 2 ^ (Int.log 2 q - 52) < round53 q := by
    simp only [round53, not_le.mpr hq, ite_false]
    calc q - 2 ^ (Int.log 2 q - 52) = (q / 2 ^ (Int.log 2 q - 52) - 1) * 2 ^ (Int.log 2 q - 52) := by
          field_simp
      _ < _ := mul_lt_mul_of_pos_right (hfloor.trans_le hround) hpos
  linarith

/-! ### The values the vote code computes -/

/-- `float64(n)` for a count `n`. -/
def toFloat64 (n : Nat) : ℚ := round53 n

/-- The constant `0.67` as a `float64`: the double nearest to it. -/
def c067 : ℚ := 6034823500676465 / 2 ^ 53

/-- A `float64` quotient: finite, `+Inf` or `NaN`. -/
inductive Float64
  | finite (q : ℚ)
  | posInf
  | nan
  deriving DecidableEq, Repr

/-- `x / y` for `x, y ≥ 0`: `x/0` is `+Inf`, and `0/0` is `NaN`. -/
def Float64.div (x y : ℚ) : Float64 :=
  if y = 0 then (if x = 0 then .nan else .posInf) else .finite (round53 (x / y))

/-- `q <= t` (`strict`) or `q < t` against a finite `t`; false on `+Inf` and `NaN`. -/
def Float64.below (strict : Bool) : Float64 → ℚ → Bool
  | .finite q, t => if strict then decide (q ≤ t) else decide (q < t)
  | _, _ => false

theorem toFloat64_mono {m n : Nat} (h : m ≤ n) : toFloat64 m ≤ toFloat64 n :=
  round53_mono (by exact_mod_cast h)

end SmartContract.Voting
