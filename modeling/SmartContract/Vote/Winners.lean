import SmartContract.Vote.Systems
import Mathlib.Algebra.Order.BigOperators.Group.List
/-!
# SmartContract.Vote.Winners

**When a single winner is a strict winner.** `Winners` returns one option when the vote
succeeds; whether that option has strictly more votes than every other depends on the
system.

* `AbsoluteMajority`, `AbsoluteSuperMajority` and `PluralityVotingSystem` collect every
  option over their bar, and a larger count never converts to a smaller `float64`
  (`round53_mono`): an option that ties or beats the single winner would be collected too.
  So a single winner of these systems beats every other option (`winners_single_strict`).
* `MajorityVote` and `SuperMajority` stop at the first option over their bar, in the map's
  iteration order. With every count zero the supermajority bar is `0`, and the first option
  wins with no votes; with counts whose `uint64` total wraps to `0` the majority bar is `0`,
  and the first of two tied options wins (`winners_single_without_strict_lead`).
* Those are the only failures. While the total does not wrap, the majority bar is exactly
  half the converted total (halving and converting twice are exact), and the supermajority
  bar of a positive total is above that half (the rounding error is below `2 ^ -52`); an
  option tied with or beating the winner has at most half the total, so it cannot have
  cleared the bar first (`winners_single_strict_of_no_wrap`).

The absolute systems are one definition, so their lemma is proved once
(`absoluteWinners_single`), from the inversion of a single-winner result
(`singleton_of_sortOptions`); likewise the relative systems (`relativeWinners_single`),
from a bound on the bar.
-/

namespace SmartContract.Voting

variable {k : UInt8} {v : Vote}

/-- `k` has strictly more votes than every other option of the result. -/
def StrictWinner (v : Vote) (k : UInt8) : Prop :=
  ∃ vk, (k, vk) ∈ v.result.entries ∧ ∀ k' v', (k', v') ∈ v.result.entries → k' ≠ k → v' < vk

/-- A map holds one count per key. -/
theorem GoMap.eq_of_mem {κ ν : Type} (m : GoMap κ ν) {k : κ} {a b : ν} (ha : (k, a) ∈ m.entries)
    (hb : (k, b) ∈ m.entries) : a = b :=
  (Prod.mk.inj (List.inj_on_of_nodup_map m.nodup ha hb rfl)).2

/-- Two options with one count: neither is a strict winner. -/
theorem not_strictWinner_of_tie {k' : UInt8} {x : UInt64} (h : (k, x) ∈ v.result.entries)
    (h' : (k', x) ∈ v.result.entries) (hne : k' ≠ k) : ¬StrictWinner v k := by
  rintro ⟨vk, hk, hall⟩
  obtain rfl := v.result.eq_of_mem hk h
  exact Nat.lt_irrefl _ (hall k' vk h' hne)

/-! ### Sorting and the bars -/

theorem singleton_of_sortOptions {b : List UInt8} (h : sortOptions b = [k]) : b = [k] := by
  have hp : b.Perm (sortOptions b) := (List.perm_insertionSort _ b).symm
  rw [h] at hp
  exact List.perm_singleton.mp hp

theorem sortOptions_singleton (k : UInt8) : sortOptions [k] = [k] := rfl

theorem countToFloat64_mono {a b : UInt64} (h : a ≤ b) : countToFloat64 a ≤ countToFloat64 b :=
  toFloat64_mono h

/-- A count at least as large as one that clears the bar clears it too. -/
theorem clears_mono {strict : Bool} {minimum : ℚ} {a b : UInt64} (ha : clears strict minimum a)
    (h : a ≤ b) : clears strict minimum b := by
  have hf := countToFloat64_mono h
  cases strict <;> simp only [clears, ite_true, Bool.false_eq_true, ite_false, decide_eq_true_eq] at ha ⊢
  · exact ha.trans hf
  · exact ha.trans_le hf

/-- If exactly one entry passes a filter that also passes every entry whose count is at
least that of an entry it passes, that entry's count is larger than every other's. -/
theorem strict_of_filter_singleton {p : UInt64 → Bool} {entries : List (UInt8 × UInt64)}
    (hp : ∀ a, p a → ∀ kv ∈ entries, a ≤ kv.2 → p kv.2)
    (h : (entries.filter fun kv => p kv.2).map Prod.fst = [k]) :
    ∃ vk, (k, vk) ∈ entries ∧ ∀ k' v', (k', v') ∈ entries → k' ≠ k → v' < vk := by
  obtain ⟨⟨k0, vk⟩, l, hf, rfl, hl⟩ := List.map_eq_cons_iff.mp h
  obtain rfl : l = [] := List.map_eq_nil_iff.mp hl
  have hmem : (k0, vk) ∈ entries.filter fun kv => p kv.2 := by simp [hf]
  rw [List.mem_filter] at hmem
  refine ⟨vk, hmem.1, fun k' v' h' hne => ?_⟩
  by_contra hlt
  have hle : vk ≤ v' := show vk.toNat ≤ v'.toNat by
    have : ¬v'.toNat < vk.toNat := hlt
    omega
  have : (k', v') ∈ entries.filter fun kv => p kv.2 :=
    List.mem_filter.mpr ⟨h', hp _ hmem.2 _ h' hle⟩
  simp only [hf, List.mem_singleton, Prod.mk.injEq] at this
  exact hne this.1

/-! ### The systems that collect every option over the bar -/

/-- A single winner of an absolute system beats every other option. -/
theorem absoluteWinners_single {factor : ℚ} {strict : Bool} {c : Contract}
    (h : absoluteWinners factor strict c v = .ok [k]) :
    StrictWinner v k := by
  unfold absoluteWinners at h
  cases hc : tokenHolderCount c v with
  | error e => simp [hc] at h; cases h
  | ok holders =>
    simp only [hc, bind, Except.bind, pure, Except.pure] at h
    split_ifs at h
    · cases h
    · exact strict_of_filter_singleton (fun _ ha _ _ hab => clears_mono ha hab)
        (singleton_of_sortOptions (Except.ok.inj h))

/-- `ResultMaximum` is at least its start and every count it has seen. -/
theorem foldl_maxStep_ge (l : List (UInt8 × UInt64)) (m : UInt64) :
    m ≤ l.foldl maxStep m ∧ ∀ kv ∈ l, kv.2 ≤ l.foldl maxStep m := by
  induction l generalizing m with
  | nil => exact ⟨show m.toNat ≤ m.toNat from le_rfl, by simp⟩
  | cons kv rest ih =>
    obtain ⟨h1, h2⟩ := ih (maxStep m kv)
    have hs : m.toNat ≤ (maxStep m kv).toNat ∧ kv.2.toNat ≤ (maxStep m kv).toNat := by
      unfold maxStep
      split
      · next h => exact ⟨Nat.le_of_lt h, le_rfl⟩
      · next h => exact ⟨le_rfl, Nat.le_of_not_lt h⟩
    refine ⟨show m.toNat ≤ _ from hs.1.trans h1, fun x hx => ?_⟩
    rcases List.mem_cons.mp hx with rfl | hx
    · exact show x.2.toNat ≤ _ from hs.2.trans h1
    · exact h2 x hx

/-- A single winner of the plurality system beats every other option. -/
theorem pluralityWinners_single (h : PluralityVotingSystem.winners v = [k]) : StrictWinner v k := by
  refine @strict_of_filter_singleton k (fun x => x = resultMaximum v.result) v.result.entries
    (fun a ha kv hkv hle => ?_) (singleton_of_sortOptions h)
  simp only [decide_eq_true_eq] at ha ⊢
  subst ha
  exact UInt64.toNat.inj (Nat.le_antisymm ((foldl_maxStep_ge _ 0).2 kv hkv) hle)

/-- **A single winner of `A`, `T` or `P` beats every other option**, for every contract,
every result and every iteration order. -/
theorem winners_single_strict {code : String} {c : Contract}
    (hcode : code = "A" ∨ code = "T" ∨ code = "P") (h : winnersFor code c v = .ok [k]) :
    StrictWinner v k := by
  rcases hcode with rfl | rfl | rfl
  · exact absoluteWinners_single h
  · exact absoluteWinners_single h
  · exact pluralityWinners_single (Except.ok.inj h)

/-- A contract with no assets. -/
def contractWithoutAssets : Contract := ⟨"P", ⟨[], List.nodup_nil⟩⟩

/-- A contract vote of five votes for option 1 and three for option 2. -/
def fiveToThree : Vote := ⟨"", 8, ⟨[(1, 5), (2, 3)], by decide⟩⟩

theorem winners_single_strict_plurality :
    ("P" = "A" ∨ "P" = "T" ∨ "P" = "P") ∧ winnersFor "P" contractWithoutAssets fiveToThree = .ok [1] ∧
      StrictWinner fiveToThree 1 :=
  ⟨.inr (.inr rfl), rfl,
    @winners_single_strict 1 fiveToThree "P" contractWithoutAssets (.inr (.inr rfl)) rfl⟩

/-! ### The systems that stop at the first option over the bar -/

/-- The relative systems take the first option, in iteration order, over the bar. -/
theorem relativeWinners_of_first {factor : ℚ} {strict : Bool} {x : UInt64}
    {rest : List (UInt8 × UInt64)} (hfirst : v.result.entries = (k, x) :: rest)
    (h : clears strict (minimumValue factor v.result) x) : relativeWinners factor strict v = [k] := by
  simp [relativeWinners, hfirst, h, sortOptions_singleton]

/-- The counts of a result, as natural numbers. -/
def countsSum (result : GoMap UInt8 UInt64) : Nat := (result.entries.map (·.2.toNat)).sum

theorem toNat_add_uint64 (a b : UInt64) : (a + b).toNat = (a.toNat + b.toNat) % 2 ^ 64 := by
  show (a.toBitVec + b.toBitVec).toNat = _
  rw [BitVec.toNat_add]; rfl

theorem foldl_total_toNat (l : List (UInt8 × UInt64)) (t : UInt64) :
    (l.foldl (fun total kv => total + kv.2) t).toNat = (t.toNat + (l.map (·.2.toNat)).sum) % 2 ^ 64 := by
  induction l generalizing t with
  | nil => exact (Nat.mod_eq_of_lt t.toBitVec.isLt).symm
  | cons kv rest ih =>
    rw [List.foldl_cons, ih, toNat_add_uint64, List.map_cons, List.sum_cons]
    omega

/-- `totalValue` is the sum of the counts, wrapped to 64 bits. -/
theorem totalValue_toNat (result : GoMap UInt8 UInt64) :
    (totalValue result).toNat = countsSum result % 2 ^ 64 :=
  (foldl_total_toNat _ 0).trans (by simp [countsSum])

/-- Two entries with different keys add up to at most the sum of all counts. -/
theorem add_le_sum_of_mem {l : List (UInt8 × UInt64)} {k k' : UInt8} {a b : UInt64}
    (ha : (k, a) ∈ l) (hb : (k', b) ∈ l) (hne : k' ≠ k) :
    a.toNat + b.toNat ≤ (l.map (·.2.toNat)).sum := by
  induction l with
  | nil => cases ha
  | cons x rest ih =>
    have hmem {y : UInt8 × UInt64} (hy : y ∈ rest) : y.2.toNat ≤ (rest.map (·.2.toNat)).sum :=
      List.le_sum_of_mem (List.mem_map_of_mem _ hy)
    rw [List.map_cons, List.sum_cons]
    rcases List.mem_cons.mp ha with rfl | ha' <;> rcases List.mem_cons.mp hb with hx | hb'
    · exact absurd (congrArg Prod.fst hx) hne
    · exact Nat.add_le_add_left (hmem hb') _
    · subst hx
      have h : b.toNat + a.toNat ≤ b.toNat + (rest.map (·.2.toNat)).sum :=
        Nat.add_le_add_left (hmem ha') _
      exact (Nat.add_comm _ _).trans_le h
    · exact (ih ha' hb').trans (Nat.le_add_left _ _)

/-- Two options' counts add up to at most the sum of all counts. -/
theorem add_le_countsSum {result : GoMap UInt8 UInt64} {k k' : UInt8} {a b : UInt64}
    (ha : (k, a) ∈ result.entries) (hb : (k', b) ∈ result.entries) (hne : k' ≠ k) :
    a.toNat + b.toNat ≤ countsSum result :=
  add_le_sum_of_mem ha hb hne

/-- A single winner of a relative system beats every other option, provided no count of
at most half the total clears the bar. -/
theorem relativeWinners_single {factor : ℚ} {strict : Bool}
    (hbar : ∀ x : UInt64, 2 * x.toNat ≤ countsSum v.result →
      clears strict (minimumValue factor v.result) x = false)
    (h : relativeWinners factor strict v = [k]) : StrictWinner v k := by
  have h1 := singleton_of_sortOptions h
  cases hf : v.result.entries.find? (fun kv => clears strict (minimumValue factor v.result) kv.2) with
  | none => simp [hf] at h1
  | some kv =>
    obtain ⟨k0, vk⟩ := kv
    obtain rfl : k0 = k := by simpa [hf] using h1
    have hclears := List.find?_some hf
    change clears strict (minimumValue factor v.result) vk = true at hclears
    have hmem := List.mem_of_find?_eq_some hf
    refine ⟨vk, hmem, fun k' v' h' hne => ?_⟩
    by_contra hlt
    have hle : vk.toNat ≤ v'.toNat := Nat.le_of_not_lt hlt
    have hsum := add_le_countsSum hmem h' hne
    rw [hbar vk (by omega)] at hclears
    exact Bool.false_ne_true hclears

/-- Without wrapping, `float64(totalValue)` is the rounded sum of the counts. -/
theorem countToFloat64_totalValue {result : GoMap UInt8 UInt64} (hsum : countsSum result < 2 ^ 64) :
    countToFloat64 (totalValue result) = round53 (countsSum result) := by
  rw [countToFloat64, toFloat64, totalValue_toNat, Nat.mod_eq_of_lt hsum]

/-- A count of at most half the total converts to at most half the converted total. -/
theorem countToFloat64_le_half {x : UInt64} {total : Nat} (hx : 2 * x.toNat ≤ total) :
    countToFloat64 x ≤ round53 total / 2 := by
  have h := round53_mono (show ((2 * x.toNat : Nat) : ℚ) ≤ total by exact_mod_cast hx)
  rw [Nat.cast_mul, Nat.cast_two, round53_two_mul (Nat.cast_nonneg _)] at h
  unfold countToFloat64 toFloat64
  linarith

/-- `MajorityVote`'s bar, `float64(total) * 0.5`, is exactly half the converted total. -/
theorem minimumValue_half (hsum : countsSum v.result < 2 ^ 64) :
    minimumValue (1 / 2) v.result = round53 (countsSum v.result) / 2 := by
  rw [minimumValue, countToFloat64_totalValue hsum, ← div_eq_mul_one_div,
    round53_half (round53_nonneg _), round53_round53]

/-- No count of at most half the total exceeds `MajorityVote`'s bar. -/
theorem majority_bar (hsum : countsSum v.result < 2 ^ 64) (x : UInt64)
    (hx : 2 * x.toNat ≤ countsSum v.result) : clears true (minimumValue (1 / 2) v.result) x = false := by
  simp only [clears, ite_true, decide_eq_false_iff_not, not_lt]
  rw [minimumValue_half hsum]
  exact countToFloat64_le_half hx

/-- `SuperMajority`'s bar, `float64(total) * 0.67`, is above half the converted total when the
total is positive, so no count of at most half the total reaches it. -/
theorem superMajority_bar (hsum : countsSum v.result < 2 ^ 64) (hpos : 0 < countsSum v.result)
    (x : UInt64) (hx : 2 * x.toNat ≤ countsSum v.result) :
    clears false (minimumValue c067 v.result) x = false := by
  set total := round53 (countsSum v.result)
  have hY : 0 < total := round53_pos (by exact_mod_cast hpos)
  have hc : (1 : ℚ) / 2 < c067 - c067 / 2 ^ 52 := by norm_num [c067]
  have hmin : total / 2 < minimumValue c067 v.result := by
    rw [minimumValue, countToFloat64_totalValue hsum]
    calc total / 2 = total * (1 / 2) := by ring
      _ < total * (c067 - c067 / 2 ^ 52) := mul_lt_mul_of_pos_left hc hY
      _ = total * c067 - total * c067 / 2 ^ 52 := by ring
      _ < round53 (total * c067) := sub_div_lt_round53 (mul_pos hY (by norm_num [c067]))
  simp [clears, (countToFloat64_le_half hx).trans_lt hmin]

/-- **Without a `uint64` wrap, a single winner of `M` beats every other option, and so does
one of `S` when some vote was cast**, for every contract and every iteration order. -/
theorem winners_single_strict_of_no_wrap {code : String} {c : Contract}
    (hsum : countsSum v.result < 2 ^ 64) (hcode : code = "M" ∨ code = "S" ∧ 0 < countsSum v.result)
    (h : winnersFor code c v = .ok [k]) : StrictWinner v k := by
  rcases hcode with rfl | ⟨rfl, hpos⟩
  · exact relativeWinners_single (majority_bar hsum) (Except.ok.inj h)
  · exact relativeWinners_single (superMajority_bar hsum hpos) (Except.ok.inj h)

/-- A contract vote of one vote for option 1 and none for option 2. -/
def oneToZero : Vote := ⟨"", 1, ⟨[(1, 1), (2, 0)], by decide⟩⟩

theorem winners_single_strict_majority :
    countsSum oneToZero.result < 2 ^ 64 ∧ ("M" = "M" ∨ "M" = "S" ∧ 0 < countsSum oneToZero.result) ∧
      winnersFor "M" contractWithoutAssets oneToZero = .ok [1] ∧ StrictWinner oneToZero 1 :=
  have hsum : countsSum oneToZero.result < 2 ^ 64 := by decide
  have hwin : winnersFor "M" contractWithoutAssets oneToZero = .ok [1] := by
    refine congrArg Except.ok (relativeWinners_of_first rfl ?_)
    have h1 : countsSum oneToZero.result = 1 := rfl
    have hf : countToFloat64 1 = round53 1 := by
      rw [countToFloat64, toFloat64, show UInt64.toNat 1 = 1 from rfl, Nat.cast_one]
    simp only [clears, ite_true, decide_eq_true_eq]
    rw [minimumValue_half hsum, h1, hf, Nat.cast_one]
    linarith [round53_pos (one_pos : (0 : ℚ) < 1)]
  ⟨hsum, .inl rfl, hwin,
    @winners_single_strict_of_no_wrap 1 oneToZero "M" contractWithoutAssets hsum (.inl rfl) hwin⟩

theorem foldl_add_zeros (l : List (UInt8 × UInt64)) (t : UInt64) (h : ∀ kv ∈ l, kv.2 = 0) :
    l.foldl (fun total kv => total + kv.2) t = t := by
  induction l generalizing t with
  | nil => rfl
  | cons kv rest ih =>
    rw [List.foldl_cons, h kv (List.mem_cons_self _ _)]
    exact (ih _ fun kv hkv => h kv (List.mem_cons_of_mem _ hkv)).trans
      (congrArg UInt64.mk (BitVec.add_zero t.toBitVec))

theorem countToFloat64_zero : countToFloat64 0 = 0 := by
  simp [countToFloat64, toFloat64, round53_zero]

/-- **With every count zero, `SuperMajority` elects the first option iterated**: the bar is
`float64(0) * 0.67 = 0`, and `0 >= 0`. -/
theorem superMajority_first_of_all_zero {rest : List (UInt8 × UInt64)}
    (hz : ∀ kv ∈ v.result.entries, kv.2 = 0) (hfirst : v.result.entries = (k, 0) :: rest) :
    SuperMajority.winners v = [k] := by
  have hmin : minimumValue c067 v.result = 0 := by
    simp [minimumValue, totalValue, foldl_add_zeros _ 0 hz, countToFloat64_zero, round53_zero]
  exact relativeWinners_of_first hfirst (by simp [clears, hmin, countToFloat64_zero])

/-- A contract vote with two options and no votes for either. -/
def zeroVote : Vote := ⟨"", 0, ⟨[(1, 0), (2, 0)], by decide⟩⟩

/-- A contract vote with two options of `2 ^ 63` votes each: the `uint64` total wraps to 0. -/
def wrappingVote : Vote := ⟨"", 2, ⟨[(1, 9223372036854775808), (2, 9223372036854775808)], by decide⟩⟩

/-- **`S` and `M` can return a single winner that does not lead.** For every contract,
`SuperMajority` elects option 1 of two options with no votes, and `MajorityVote` elects
option 1 of two options tied at `2 ^ 63` votes, whose total wraps to 0; in neither is
option 1 a strict winner. -/
theorem winners_single_without_strict_lead (c : Contract) :
    (winnersFor "S" c zeroVote = .ok [1] ∧ ¬StrictWinner zeroVote 1) ∧
      (winnersFor "M" c wrappingVote = .ok [1] ∧ ¬StrictWinner wrappingVote 1) := by
  have hS : SuperMajority.winners zeroVote = [1] :=
    superMajority_first_of_all_zero (by simp [zeroVote]) rfl
  have hclears : clears true (minimumValue (1 / 2) wrappingVote.result) 9223372036854775808 := by
    have htotal : totalValue wrappingVote.result = 0 := rfl
    have hpos : (0 : ℚ) < countToFloat64 9223372036854775808 := round53_pos (Nat.cast_pos.mpr (by decide))
    simp [clears, minimumValue, htotal, countToFloat64_zero, round53_zero, hpos]
  have hM : MajorityVote.winners wrappingVote = [1] := relativeWinners_of_first rfl hclears
  have tie (w : Vote) (x : UInt64) (h : w.result.entries = [(1, x), (2, x)]) : ¬StrictWinner w 1 :=
    not_strictWinner_of_tie (by simp [h]) (by simp [h] : ((2 : UInt8), x) ∈ w.result.entries)
      (by decide)
  exact ⟨⟨congrArg Except.ok hS, tie zeroVote 0 rfl⟩, ⟨congrArg Except.ok hM, tie wrappingVote _ rfl⟩⟩

end SmartContract.Voting
