import SmartContract.Vote.Winners
/-!
# SmartContract.Vote.Order

**The winners and Go's map iteration order.** Go walks a map in an order it picks afresh
for every `range`, so two nodes that count one vote may walk `*v.Result` and `c.Assets` in
different orders. A result that depends on the order is not a function of the vote, and
nodes that must agree on it need not.

* `totalValue`, `ResultMaximum` and the holder count fold a step that commutes (`uint64`
  addition, the larger count, `int` addition), and a map lookup finds its key's one entry
  in any order (`totalValue_perm`, `resultMaximum_perm`, `tokenHolderCount_perm`).
* `A`, `T` and `P` collect every option over their bar and sort them, and sorting forgets
  the order it was given (`sortOptions_perm`).
* `M` and `S` stop at the first option over their bar. Every order meets the same one as
  long as at most one option clears the bar (`find?_perm_of_unique`, `clears_unique`): true
  of `M` while the total does not wrap, and of `S` when the total is also positive.

So under those two conditions every system's winners are a function of the maps
(`winnersFor_reorder`). Without them they are not: with every count zero, `S` elects
whichever option it meets first (`superMajority_depends_on_order`).
-/

namespace SmartContract.Voting

variable {v : Vote} {c : Contract} {result : GoMap UInt8 UInt64} {assets : GoMap String Asset}

/-! ### Folds and lookups that forget the order -/

theorem countsSum_perm {r r' : GoMap UInt8 UInt64} (h : r.entries.Perm r'.entries) :
    countsSum r = countsSum r' :=
  (h.map _).sum_eq

theorem totalValue_perm {r r' : GoMap UInt8 UInt64} (h : r.entries.Perm r'.entries) :
    totalValue r = totalValue r' :=
  UInt64.toNat.inj (by rw [totalValue_toNat, totalValue_toNat, countsSum_perm h])

theorem minimumValue_perm {factor : ℚ} {r r' : GoMap UInt8 UInt64} (h : r.entries.Perm r'.entries) :
    minimumValue factor r = minimumValue factor r' := by
  rw [minimumValue, minimumValue, totalValue_perm h]

theorem maxStep_toNat (m : UInt64) (kv : UInt8 × UInt64) :
    (maxStep m kv).toNat = max m.toNat kv.2.toNat := by
  unfold maxStep
  split
  · next h => exact (max_eq_right (Nat.le_of_lt h)).symm
  · next h => exact (max_eq_left (Nat.le_of_not_lt h)).symm

theorem resultMaximum_perm {r r' : GoMap UInt8 UInt64} (h : r.entries.Perm r'.entries) :
    resultMaximum r = resultMaximum r' :=
  h.foldl_eq' (fun _ _ _ _ _ => UInt64.toNat.inj (by simp only [maxStep_toNat]; omega)) 0

/-- The first element meeting `p` is the same in every order when at most one meets it. -/
theorem find?_perm_of_unique {α : Type} {p : α → Bool} {l l' : List α} (h : l.Perm l')
    (hu : ∀ x ∈ l, ∀ y ∈ l, p x → p y → x = y) : l.find? p = l'.find? p := by
  cases hf : l.find? p with
  | none =>
    exact (List.find?_eq_none.mpr fun x hx => List.find?_eq_none.mp hf x (h.mem_iff.mpr hx)).symm
  | some x =>
    have hx := List.mem_of_find?_eq_some hf
    cases hf' : l'.find? p with
    | none => exact absurd (List.find?_some hf) (List.find?_eq_none.mp hf' x (h.mem_iff.mp hx))
    | some y =>
      rw [hu x hx y (h.mem_iff.mpr (List.mem_of_find?_eq_some hf')) (List.find?_some hf)
        (List.find?_some hf')]

theorem lookup_eq_find? {κ ν : Type} [DecidableEq κ] (k : κ) (l : List (κ × ν)) :
    l.lookup k = (l.find? (·.1 = k)).map Prod.snd := by
  induction l with
  | nil => rfl
  | cons kv l ih =>
    obtain ⟨k', b⟩ := kv
    by_cases hk : k = k'
    · subst hk; simp [List.lookup_cons]
    · simp [List.lookup_cons, beq_eq_false_iff_ne.mpr hk, Ne.symm hk, ih]

/-- `m[k]` is the same in every iteration order: a map has each key once. -/
theorem GoMap.lookup_perm {κ ν : Type} [DecidableEq κ] {m m' : GoMap κ ν}
    (h : m.entries.Perm m'.entries) (k : κ) : m.lookup k = m'.lookup k := by
  simp only [GoMap.lookup, lookup_eq_find?]
  rw [find?_perm_of_unique h fun x hx y hy hxk hyk =>
    List.inj_on_of_nodup_map m.nodup hx hy (by simp_all)]

theorem tokenHolderCount_perm (h : assets.entries.Perm c.assets.entries) (v : Vote) :
    tokenHolderCount { c with assets } v = tokenHolderCount c v := by
  have hsum : assets.entries.foldl (fun n a => n + a.2.holdings) 0 =
      c.assets.entries.foldl (fun n a => n + a.2.holdings) 0 :=
    h.foldl_eq' (fun _ _ _ _ _ => Nat.add_right_comm _ _ _) 0
  simp only [tokenHolderCount, GoMap.lookup_perm h, hsum]

/-! ### Sorting, and the first option over the bar -/

instance isTotal_uint8_le : IsTotal UInt8 (· ≤ ·) := ⟨fun a b => Nat.le_total a.toNat b.toNat⟩

instance isTrans_uint8_le : IsTrans UInt8 (· ≤ ·) :=
  ⟨fun _ _ _ (hab : _ ≤ _) hbc => show _ ≤ _ from Nat.le_trans hab hbc⟩

instance isAntisymm_uint8_le : IsAntisymm UInt8 (· ≤ ·) :=
  ⟨fun _ _ (hab : _ ≤ _) (hba : _ ≤ _) => UInt8.toNat.inj (Nat.le_antisymm hab hba)⟩

/-- Sorting forgets the order it was given. -/
theorem sortOptions_perm {b b' : List UInt8} (h : b.Perm b') : sortOptions b = sortOptions b' :=
  List.eq_of_perm_of_sorted
    (((List.perm_insertionSort _ b).trans h).trans (List.perm_insertionSort _ b').symm)
    (List.sorted_insertionSort _ b) (List.sorted_insertionSort _ b')

/-- If no count of at most half the total clears the bar, at most one option clears it. -/
theorem clears_unique {factor : ℚ} {strict : Bool}
    (hbar : ∀ x : UInt64, 2 * x.toNat ≤ countsSum v.result →
      clears strict (minimumValue factor v.result) x = false) :
    ∀ x ∈ v.result.entries, ∀ y ∈ v.result.entries,
      clears strict (minimumValue factor v.result) x.2 →
        clears strict (minimumValue factor v.result) y.2 → x = y := by
  rintro ⟨k, a⟩ hx ⟨k', b⟩ hy ha hb
  by_cases hk : k' = k
  · subst hk
    rw [v.result.eq_of_mem hx hy]
  · have hsum := add_le_countsSum hx hy hk
    by_cases h : 2 * a.toNat ≤ countsSum v.result
    · simp [hbar a h] at ha
    · simp [hbar b (by omega)] at hb

/-- A relative system meets the same first option over the bar in every order, when at
most one option clears it. -/
theorem relativeWinners_perm {factor : ℚ} {strict : Bool} (h : result.entries.Perm v.result.entries)
    (hbar : ∀ x : UInt64, 2 * x.toNat ≤ countsSum v.result →
      clears strict (minimumValue factor v.result) x = false) :
    relativeWinners factor strict { v with result } = relativeWinners factor strict v := by
  simp only [relativeWinners, minimumValue_perm h]
  rw [find?_perm_of_unique h fun x hx y hy =>
    clears_unique hbar x (h.mem_iff.mp hx) y (h.mem_iff.mp hy)]

theorem absoluteWinners_perm {factor : ℚ} {strict : Bool} (ha : assets.entries.Perm c.assets.entries)
    (hr : result.entries.Perm v.result.entries) :
    absoluteWinners factor strict { c with assets } { v with result } =
      absoluteWinners factor strict c v := by
  have hc : tokenHolderCount { c with assets } { v with result } = tokenHolderCount c v :=
    tokenHolderCount_perm ha _
  simp only [absoluteWinners, hc, minimumValue_perm hr,
    sortOptions_perm ((hr.filter _).map Prod.fst)]

theorem pluralityWinners_perm (h : result.entries.Perm v.result.entries) :
    PluralityVotingSystem.winners { v with result } = PluralityVotingSystem.winners v := by
  simp only [PluralityVotingSystem.winners, resultMaximum_perm h]
  exact sortOptions_perm ((h.filter _).map Prod.fst)

/-! ### Every system -/

/-- **The winners do not depend on Go's iteration order**, of `*v.Result` or of
`c.Assets`, for every system but `M` and `S`; for `M` while the total of the counts does
not wrap, and for `S` when it is also positive. -/
theorem winnersFor_reorder {code : String} (ha : assets.entries.Perm c.assets.entries)
    (hr : result.entries.Perm v.result.entries)
    (hcode : code ≠ "M" ∧ code ≠ "S" ∨ countsSum v.result < 2 ^ 64 ∧ (code = "M" ∨ 0 < countsSum v.result)) :
    winnersFor code { c with assets } { v with result } = winnersFor code c v := by
  unfold winnersFor newVotingSystem
  split_ifs with hM hA hP hS hT hN <;>
    simp only [bind, Except.bind, VotingSystem.winners, AbsoluteMajority.winners,
      AbsoluteSuperMajority.winners, absoluteWinners_perm ha hr, pluralityWinners_perm hr]
  · obtain ⟨hsum, -⟩ := hcode.resolve_left (by simp [hM])
    rw [MajorityVote.winners, MajorityVote.winners, relativeWinners_perm hr (majority_bar hsum)]
  · obtain ⟨hsum, hpos⟩ := hcode.resolve_left (by simp [hS])
    have hpos := hpos.resolve_left hM
    rw [SuperMajority.winners, SuperMajority.winners,
      relativeWinners_perm hr (superMajority_bar hsum hpos)]

/-- Two options of five and three votes, iterated the other way round. -/
def threeThenFive : GoMap UInt8 UInt64 := ⟨[(2, 3), (1, 5)], by decide⟩

theorem winnersFor_reorder_majority :
    contractWithoutAssets.assets.entries.Perm contractWithoutAssets.assets.entries ∧
      threeThenFive.entries.Perm fiveToThree.result.entries ∧
      (("M" : String) ≠ "M" ∧ ("M" : String) ≠ "S" ∨
        countsSum fiveToThree.result < 2 ^ 64 ∧ (("M" : String) = "M" ∨ 0 < countsSum fiveToThree.result)) ∧
      winnersFor "M" { contractWithoutAssets with assets := contractWithoutAssets.assets }
          { fiveToThree with result := threeThenFive } = winnersFor "M" contractWithoutAssets fiveToThree :=
  have ha : contractWithoutAssets.assets.entries.Perm contractWithoutAssets.assets.entries :=
    List.Perm.refl _
  have hr : threeThenFive.entries.Perm fiveToThree.result.entries := by decide
  have hcode : ("M" : String) ≠ "M" ∧ ("M" : String) ≠ "S" ∨
      countsSum fiveToThree.result < 2 ^ 64 ∧ (("M" : String) = "M" ∨ 0 < countsSum fiveToThree.result) :=
    .inr ⟨by decide, .inl rfl⟩
  ⟨ha, hr, hcode, winnersFor_reorder ha hr hcode⟩

/-! ### Where the order decides -/

/-- **With every count zero, `S`'s winner is whichever option Go iterates first**: a vote
of two options or more elects the first, and the same map iterated with the second first
elects the second. -/
theorem superMajority_depends_on_order {k k' : UInt8} {rest : List (UInt8 × UInt64)}
    (hz : ∀ kv ∈ v.result.entries, kv.2 = 0) (hfirst : v.result.entries = (k, 0) :: (k', 0) :: rest) :
    SuperMajority.winners v = [k] ∧
      ∃ result : GoMap UInt8 UInt64, result.entries.Perm v.result.entries ∧
        SuperMajority.winners { v with result } = [k'] ∧ k' ≠ k := by
  have hswap : ((k', 0) :: (k, 0) :: rest).Perm v.result.entries := hfirst ▸ List.Perm.swap _ _ _
  let swapped : GoMap UInt8 UInt64 :=
    ⟨(k', 0) :: (k, 0) :: rest, (hswap.map Prod.fst).nodup_iff.mpr v.result.nodup⟩
  have hne : k' ≠ k := by
    have hnd := v.result.nodup
    rw [hfirst] at hnd
    simp only [List.map_cons, List.nodup_cons, List.mem_cons] at hnd
    exact fun h => hnd.1 (.inl h.symm)
  refine ⟨superMajority_first_of_all_zero hz hfirst, swapped, hswap, ?_, hne⟩
  exact @superMajority_first_of_all_zero k' { v with result := swapped } _
    (fun kv hkv => hz kv (hswap.mem_iff.mp hkv)) rfl

/-- A vote of three options, none of which got a vote. -/
def threeZeros : Vote := ⟨"", 0, ⟨[(1, 0), (2, 0), (3, 0)], by decide⟩⟩

theorem superMajority_depends_on_order_threeZeros :
    (∀ kv ∈ threeZeros.result.entries, kv.2 = 0) ∧
      threeZeros.result.entries = (1, 0) :: (2, 0) :: [(3, 0)] ∧
      SuperMajority.winners threeZeros = [1] ∧
      ∃ result : GoMap UInt8 UInt64, result.entries.Perm threeZeros.result.entries ∧
        SuperMajority.winners { threeZeros with result } = [2] ∧ (2 : UInt8) ≠ 1 :=
  have hz : ∀ kv ∈ threeZeros.result.entries, kv.2 = 0 := by decide
  ⟨hz, rfl, superMajority_depends_on_order hz rfl⟩

end SmartContract.Voting
