import SmartContract.Vote.Winners
/-!
# SmartContract.Vote.Spec

**What the majority systems elect, in counts.** The whitepaper's rules are about counts:
`M` and `A` elect the option with more than half of the votes, `A` only once more than half
of the holders voted. The code compares `float64`s.

* Below `2 ^ 53` every count is a `float64` (`round53_natCast`), halving is exact, and a
  quotient more than half a unit in the last place above `0.5` rounds above it
  (`zpow_lt_round53`). So while the counts stay below `2 ^ 53`, `M` and `A` elect exactly
  the options with a strict majority (`majorityVote_winners_eq`,
  `absoluteMajority_winners_eq`). `A`'s turnout test is the whitepaper's, except with no
  holders: `0 / 0` is `NaN` and `n / 0` is `+Inf`, both compare false with `<= 0.5`, so a
  vote without holders passes it even with no ballot.

The bound is where `float64` stops being exact, and past it the rounding decides:
`float64(2 ^ 59 + 2) = 2 ^ 59 = float64(2 ^ 60 + 2) * 0.5`, so `M` elects nobody in a
vote of `2 ^ 59 + 2` against `2 ^ 59` (`majorityVote_misses_majority`).

## Proof shape

The float lemmas reduce each comparison to one on counts (`clears_half_eq`,
`below_half_eq`); at most one option has a strict majority (`majority_unique`), so `M`'s
first option over the bar is the list of all of them (`find?_map_toList_eq`).
-/

namespace SmartContract.Voting

variable {v : Vote}

/-! ### Rounding at a power of two -/

/-- Every natural number below `2 ^ 53` is a `float64`. -/
theorem round53_natCast {n : ℕ} (hn : n < 2 ^ 53) : round53 n = n := by
  rcases Nat.eq_zero_or_pos n with rfl | hpos
  · simpa using round53_zero
  have hL : Nat.log 2 n < 53 := Nat.log_lt_of_lt_pow hpos.ne' hn
  have h1 : 2 ^ Nat.log 2 n ≤ n := Nat.pow_log_le_self 2 hpos.ne'
  have h2 : n < 2 ^ (Nat.log 2 n + 1) := Nat.lt_pow_succ_log_self (by norm_num) n
  have hsplit : 2 ^ Nat.log 2 n * 2 ^ (52 - Nat.log 2 n) = 2 ^ 52 := by
    rw [← pow_add, Nat.add_sub_cancel' (by omega)]
  have hlo : 2 ^ 52 ≤ n * 2 ^ (52 - Nat.log 2 n) := hsplit ▸ Nat.mul_le_mul_right _ h1
  have hhi : n * 2 ^ (52 - Nat.log 2 n) < 2 ^ 53 := by
    calc n * 2 ^ (52 - Nat.log 2 n) < 2 ^ (Nat.log 2 n + 1) * 2 ^ (52 - Nat.log 2 n) :=
          Nat.mul_lt_mul_of_pos_right h2 (by positivity)
      _ = 2 ^ 53 := by rw [← pow_add]; congr 1; omega
  have hcast : (((n * 2 ^ (52 - Nat.log 2 n) : ℕ) : ℤ) : ℚ) * 2 ^ ((Nat.log 2 n : ℤ) - 52) = n := by
    rw [Int.cast_natCast, Nat.cast_mul, Nat.cast_pow, Nat.cast_ofNat, mul_assoc, ← zpow_natCast,
      ← zpow_add₀ two_ne_zero, Nat.cast_sub (by omega)]
    simp
  rw [← hcast]
  exact round53_intCast_mul_zpow (by exact_mod_cast hlo) (by exact_mod_cast hhi) _

theorem round53_one : round53 1 = 1 := by simpa using @round53_natCast 1 (by norm_num)

theorem round53_one_half : round53 (1 / 2) = 1 / 2 := by
  rw [round53_half zero_le_one, round53_one]

/-- `roundHalfEven` rounds up past an integer and a half. -/
theorem add_one_le_roundHalfEven {x : ℚ} {n : ℤ} (h : n + 1 / 2 < x) : n + 1 ≤ roundHalfEven x := by
  have hfl : n ≤ ⌊x⌋ := Int.le_floor.mpr (by linarith)
  rcases hfl.lt_or_eq with hlt | rfl
  · exact hlt.trans_le (floor_le_roundHalfEven x)
  · have hup : (1 : ℚ) / 2 < x - ⌊x⌋ := by linarith
    rw [roundHalfEven, if_neg (not_lt.mpr hup.le), if_pos hup]

/-- `2 ^ (L - 52)` is the unit in the last place of the binade `[2 ^ L, 2 ^ (L + 1))`. -/
theorem two_pow_52_mul_ulp (L : ℤ) : (2 : ℚ) ^ 52 * 2 ^ (L - 52) = 2 ^ L := by
  rw [two_pow_mul_zpow]; congr 1; push_cast; ring

theorem half_mul_ulp (L : ℤ) : (1 / 2 : ℚ) * 2 ^ (L - 52) = 2 ^ (L - 53) := by
  rw [show L - 52 = L - 53 + 1 by ring, zpow_add_one₀ two_ne_zero]; ring

/-- A value more than half a unit in the last place above a power of two rounds above it. -/
theorem zpow_lt_round53 {q : ℚ} {L : ℤ} (hlo : 2 ^ L + 2 ^ (L - 53) < q) (hhi : q < 2 ^ (L + 1)) :
    2 ^ L < round53 q := by
  have hulp : (0 : ℚ) < 2 ^ (L - 52) := zpow_pos two_pos _
  have hhalf : (0 : ℚ) < 2 ^ (L - 53) := zpow_pos two_pos _
  have hq : 0 < q := by linarith [zpow_pos (two_pos : (0 : ℚ) < 2) L]
  have hs : (((2 ^ 52 : ℤ) : ℚ)) + 1 / 2 < q / 2 ^ (L - 52) := by
    rw [lt_div_iff₀ hulp, add_mul, half_mul_ulp]; push_cast; linarith [two_pow_52_mul_ulp L]
  have hr : ((2 : ℚ) ^ 52 + 1) ≤ roundHalfEven (q / 2 ^ (L - 52)) := by
    exact_mod_cast add_one_le_roundHalfEven hs
  rw [round53, if_neg (not_le.mpr hq), log_eq_of_mem (by linarith) hhi]
  calc (2 : ℚ) ^ L = 2 ^ 52 * 2 ^ (L - 52) := (two_pow_52_mul_ulp L).symm
    _ < (2 ^ 52 + 1) * 2 ^ (L - 52) := by linarith
    _ ≤ roundHalfEven (q / 2 ^ (L - 52)) * 2 ^ (L - 52) := mul_le_mul_of_nonneg_right hr hulp.le

/-- Within half a unit in the last place above a power of two, a value rounds down to it. -/
theorem round53_eq_zpow {q : ℚ} {L : ℤ} (hlo : 2 ^ L ≤ q) (hhi : q < 2 ^ L + 2 ^ (L - 53)) :
    round53 q = 2 ^ L := by
  have hulp : (0 : ℚ) < 2 ^ (L - 52) := zpow_pos two_pos _
  have e1 := two_pow_52_mul_ulp L
  have hfl : ⌊q / 2 ^ (L - 52)⌋ = 2 ^ 52 := by
    rw [Int.floor_eq_iff, le_div_iff₀ hulp, div_lt_iff₀ hulp]
    push_cast
    constructor <;> linarith [half_mul_ulp L]
  have hround : roundHalfEven (q / 2 ^ (L - 52)) = 2 ^ 52 := by
    have hfrac : q / 2 ^ (L - 52) - ⌊q / 2 ^ (L - 52)⌋ < 1 / 2 := by
      rw [hfl, sub_lt_iff_lt_add, div_lt_iff₀ hulp, add_mul, half_mul_ulp]; push_cast; linarith
    rw [roundHalfEven, if_pos hfrac, hfl]
  have hlog : Int.log 2 q = L := log_eq_of_mem hlo (by
    have : (2 : ℚ) ^ (L - 53) < 2 ^ L := zpow_lt_zpow_right₀ one_lt_two (by omega)
    rw [zpow_add_one₀ two_ne_zero]; linarith)
  rw [round53, if_neg (not_le.mpr (lt_of_lt_of_le (zpow_pos two_pos L) hlo)), hlog, hround]
  push_cast
  exact e1

/-! ### The comparisons, in counts -/

theorem countToFloat64_of_lt {x : UInt64} (hx : x.toNat < 2 ^ 53) : countToFloat64 x = x.toNat :=
  round53_natCast hx

theorem le_countsSum {kv : UInt8 × UInt64} (h : kv ∈ v.result.entries) : kv.2.toNat ≤ countsSum v.result :=
  List.single_le_sum (fun _ _ => Nat.zero_le _) _ (List.mem_map_of_mem _ h)

/-- Below `2 ^ 53`, an option clears `M`'s and `A`'s bar exactly when it has more than half
of the votes. -/
theorem clears_half_eq (hT : countsSum v.result < 2 ^ 53) {kv : UInt8 × UInt64} (h : kv ∈ v.result.entries) :
    clears true (minimumValue (1 / 2) v.result) kv.2 = decide (countsSum v.result < 2 * kv.2.toNat) := by
  have hx := le_countsSum h
  rw [clears, if_pos rfl, minimumValue_half (by omega), round53_natCast hT,
    countToFloat64_of_lt (by omega), decide_eq_decide, div_lt_iff₀ two_pos]
  norm_cast
  constructor <;> intro <;> omega

/-- Below `2 ^ 53` holders, the rounded turnout is at most `0.5` exactly when at most half
of the holders voted. -/
theorem round53_div_le_half_iff {b h : ℕ} (hpos : 0 < h) (hh : h < 2 ^ 53) :
    round53 ((b : ℚ) / h) ≤ 1 / 2 ↔ 2 * b ≤ h := by
  have hpos' : (0 : ℚ) < h := by exact_mod_cast hpos
  constructor
  · intro hle
    by_contra hlt
    have hlt' : (h : ℚ) + 1 ≤ 2 * b := by exact_mod_cast (by omega : h + 1 ≤ 2 * b)
    rcases le_or_lt h b with hhb | hbh
    · -- a turnout of one or more rounds to one or more
      have h1 : (1 : ℚ) ≤ b / h := by rw [le_div_iff₀ hpos', one_mul]; exact_mod_cast hhb
      have h2 := round53_mono h1
      rw [round53_one] at h2
      linarith
    · -- a turnout in `(0.5, 1)` is more than half a unit in the last place above `0.5`
      have hh' : (h : ℚ) < 2 ^ 53 := by exact_mod_cast hh
      have hlo : (2 : ℚ) ^ (-1 : ℤ) + 2 ^ ((-1 : ℤ) - 53) < b / h := by
        rw [lt_div_iff₀ hpos']; norm_num; linarith
      have hhi : (b : ℚ) / h < 2 ^ ((-1 : ℤ) + 1) := by
        rw [div_lt_iff₀ hpos']; norm_num; exact_mod_cast hbh
      have := zpow_lt_round53 hlo hhi
      norm_num at this
      linarith
  · intro hle
    refine (round53_mono ((div_le_iff₀ hpos').mpr ?_)).trans_eq round53_one_half
    have : (2 * b : ℚ) ≤ h := by exact_mod_cast hle
    linarith

/-- Below `2 ^ 53`, `A`'s turnout test `float64(ballots) / float64(holders) <= 0.5` rejects
exactly when there are holders and at most half of them voted. -/
theorem below_half_eq {b h : ℕ} (hb : b < 2 ^ 53) (hh : h < 2 ^ 53) :
    (Float64.div (toFloat64 b) (toFloat64 h)).below true (1 / 2) = decide (0 < h ∧ 2 * b ≤ h) := by
  rw [toFloat64, toFloat64, round53_natCast hb, round53_natCast hh]
  rcases Nat.eq_zero_or_pos h with rfl | hpos
  · simp only [Nat.cast_zero, Float64.div, if_true]
    split <;> rfl
  · rw [Float64.div, if_neg (Nat.cast_pos.mpr hpos).ne', Float64.below, if_pos rfl, decide_eq_decide,
      round53_div_le_half_iff hpos hh]
    simp [hpos]

/-! ### `M` and `A` elect the strict majority -/

/-- The options with more than half of the votes: at most one. -/
def strictMajority (v : Vote) : List UInt8 :=
  (v.result.entries.filter fun kv => countsSum v.result < 2 * kv.2.toNat).map Prod.fst

/-- Two options cannot both have more than half of the votes. -/
theorem majority_unique : ∀ x ∈ v.result.entries, ∀ y ∈ v.result.entries,
    decide (countsSum v.result < 2 * x.2.toNat) → decide (countsSum v.result < 2 * y.2.toNat) → x = y := by
  rintro ⟨k, a⟩ hx ⟨k', b⟩ hy ha hb
  by_cases hk : k' = k
  · subst hk
    exact v.result.eq_of_mem hx hy ▸ rfl
  · have := add_le_countsSum hx hy hk
    simp only [decide_eq_true_eq] at ha hb
    omega

/-- The first element meeting `p` is all of them when at most one meets it. -/
theorem find?_map_toList_eq {α β : Type} {p : α → Bool} {f : α → β} {l : List α} (hnd : l.Nodup)
    (hu : ∀ x ∈ l, ∀ y ∈ l, p x → p y → x = y) : ((l.find? p).map f).toList = (l.filter p).map f := by
  induction l with
  | nil => rfl
  | cons a l ih =>
    obtain ⟨ha, hnd⟩ := List.nodup_cons.mp hnd
    cases hpa : p a
    · rw [List.find?_cons_of_neg _ (by simp [hpa]), List.filter_cons_of_neg (by simp [hpa])]
      exact ih hnd fun x hx y hy => hu x (.tail _ hx) y (.tail _ hy)
    · have hrest : l.filter p = [] := List.filter_eq_nil_iff.mpr fun y hy hpy =>
        ha (hu a (.head _) y (.tail _ hy) hpa hpy ▸ hy)
      rw [List.find?_cons_of_pos _ hpa, List.filter_cons_of_pos hpa, hrest]
      rfl

theorem sortOptions_strictMajority : sortOptions (strictMajority v) = strictMajority v := by
  rw [strictMajority, ← find?_map_toList_eq (v.result.nodup.of_map _) majority_unique]
  cases v.result.entries.find? fun kv => countsSum v.result < 2 * kv.2.toNat <;> rfl

theorem filter_clears_half (hT : countsSum v.result < 2 ^ 53) :
    v.result.entries.filter (fun kv => clears true (minimumValue (1 / 2) v.result) kv.2) =
      v.result.entries.filter fun kv => countsSum v.result < 2 * kv.2.toNat :=
  List.filter_congr fun _ h => clears_half_eq hT h

/-- **`M` elects exactly the option with more than half of the votes**, for every vote
whose counts add up to less than `2 ^ 53`, in every iteration order. -/
theorem majorityVote_winners_eq (hT : countsSum v.result < 2 ^ 53) :
    MajorityVote.winners v = strictMajority v := by
  have hu : ∀ x ∈ v.result.entries, ∀ y ∈ v.result.entries,
      clears true (minimumValue (1 / 2) v.result) x.2 →
        clears true (minimumValue (1 / 2) v.result) y.2 → x = y := by
    intro x hx y hy
    rw [clears_half_eq hT hx, clears_half_eq hT hy]
    exact majority_unique x hx y hy
  rw [MajorityVote.winners, relativeWinners, find?_map_toList_eq (v.result.nodup.of_map _) hu,
    filter_clears_half hT]
  exact sortOptions_strictMajority

theorem majorityVote_winners_eq_fiveToThree :
    countsSum fiveToThree.result < 2 ^ 53 ∧ MajorityVote.winners fiveToThree = strictMajority fiveToThree :=
  have hT : countsSum fiveToThree.result < 2 ^ 53 := by decide
  ⟨hT, majorityVote_winners_eq hT⟩

/-- **`A` elects exactly the option with more than half of the votes once more than half of
the holders voted**, for every contract and vote with fewer than `2 ^ 53` holders, ballots
and votes, in every iteration order. With no holders the turnout test passes whatever the
ballots. -/
theorem absoluteMajority_winners_eq {c : Contract} {holders : ℕ} (hc : tokenHolderCount c v = .ok holders)
    (hT : countsSum v.result < 2 ^ 53) (hb : v.ballots < 2 ^ 53) (hh : holders < 2 ^ 53) :
    AbsoluteMajority.winners c v =
      .ok (if 0 < holders ∧ 2 * v.ballots ≤ holders then [] else strictMajority v) := by
  rw [AbsoluteMajority.winners, absoluteWinners, hc]
  simp only [bind, Except.bind, below_half_eq hb hh, filter_clears_half hT, decide_eq_true_eq]
  rw [← strictMajority, sortOptions_strictMajority]
  split_ifs <;> rfl

/-- A contract without assets has no holders, and `A` still elects the majority option. -/
theorem absoluteMajority_winners_eq_without_holders :
    tokenHolderCount contractWithoutAssets fiveToThree = .ok 0 ∧ countsSum fiveToThree.result < 2 ^ 53 ∧
      fiveToThree.ballots < 2 ^ 53 ∧ 0 < 2 ^ 53 ∧
      AbsoluteMajority.winners contractWithoutAssets fiveToThree =
        .ok (if 0 < 0 ∧ 2 * fiveToThree.ballots ≤ 0 then [] else strictMajority fiveToThree) :=
  have hc : tokenHolderCount contractWithoutAssets fiveToThree = .ok 0 := rfl
  have hT : countsSum fiveToThree.result < 2 ^ 53 := by decide
  have hb : fiveToThree.ballots < 2 ^ 53 := by decide
  have hh : 0 < 2 ^ 53 := by decide
  ⟨hc, hT, hb, hh, absoluteMajority_winners_eq hc hT hb hh⟩

/-- Two options of `2 ^ 59 + 2` and `2 ^ 59` votes. -/
def bigMajority : Vote := ⟨"", 2, ⟨[(1, 576460752303423490), (2, 576460752303423488)], by decide⟩⟩

/-- Past `2 ^ 53` the rounding decides: option 1 has more than half of the votes of
`bigMajority`, yet `float64(2 ^ 59 + 2)` is `2 ^ 59`, which is not above
`float64(2 ^ 60 + 2) * 0.5 = 2 ^ 59`, and `M` elects nobody. -/
theorem majorityVote_misses_majority :
    strictMajority bigMajority = [1] ∧ MajorityVote.winners bigMajority = [] := by
  have hT : countsSum bigMajority.result = 2 ^ 60 + 2 := rfl
  have hmin : minimumValue (1 / 2) bigMajority.result = 2 ^ (59 : ℤ) := by
    rw [minimumValue_half (by rw [hT]; norm_num), hT,
      @round53_eq_zpow _ 60 (by norm_num) (by norm_num)]
    norm_num
  have h1 : countToFloat64 576460752303423490 = 2 ^ (59 : ℤ) := by
    show round53 ((576460752303423490 : ℕ) : ℚ) = _
    exact @round53_eq_zpow _ 59 (by norm_num) (by norm_num)
  have h2 : countToFloat64 576460752303423488 = 2 ^ (59 : ℤ) := by
    show round53 ((576460752303423488 : ℕ) : ℚ) = _
    exact @round53_eq_zpow _ 59 (by norm_num) (by norm_num)
  refine ⟨by decide, ?_⟩
  rw [MajorityVote.winners, relativeWinners, hmin]
  simp [bigMajority, clears, h1, h2]
  rfl

end SmartContract.Voting
