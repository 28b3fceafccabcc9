import SmartContract.MemPool.Reachable
import Mathlib.Data.List.Chain
/-!
# SmartContract.MemPool.Requests

**Request throttling.** `AddRequest(txid)` is the only guard against asking several peers
for the same transaction: it grants a request when none was granted before, or when the
last one is old. `requests[txid]` is never deleted and only written when a request is
granted, so it always holds **the clock reading of the last granted request**
(`Reachable.requests_eq`), whatever else the history did.

From that, on every reachable mempool `AddRequest` is a function of the history
(`reachable_addRequest`): it answers `(true, false)` and changes nothing for a tracked
transaction, and otherwise grants exactly when there was no earlier grant or the last one
is more than three seconds old. The code compares `Seconds() > 3`, so a request exactly
three seconds after the last grant is refused (`addRequest_refused_three_seconds_later`).
Consequently any two grants for one transaction are more than three seconds apart.
-/

namespace SmartContract.MemPool

variable {outpointHash : OutPoint → Hash}

/-- The clock reading of a call, when it is an `AddRequest(x)` that was granted. -/
def grantTime (x : Hash) : Call × Reply → Option Time
  | (.addRequest y now, .addRequest _ true) => if y = x then some now else none
  | _ => none

/-- The clock readings of the granted requests for `x` in `history`, oldest first. -/
def grants (x : Hash) (history : List (Call × Reply)) : List Time :=
  history.filterMap (grantTime x)

theorem grantTime_eq_some {x : Hash} {c : Call} {r : Reply} {now : Time} :
    grantTime x (c, r) = some now ↔ ∃ a, c = .addRequest x now ∧ r = .addRequest a true := by
  constructor
  · intro h
    match c, r, h with
    | .addRequest y now', .addRequest a true, h =>
      obtain ⟨rfl, rfl⟩ : y = x ∧ now' = now := by simpa [grantTime] using h
      exact ⟨a, rfl, rfl⟩
  · rintro ⟨a, rfl, rfl⟩
    simp [grantTime]

theorem grants_append (x : Hash) (history : List (Call × Reply)) (cr : Call × Reply) :
    grants x (history ++ [cr]) = grants x history ++ (grantTime x cr).toList := by
  simp only [grants, List.filterMap_append, List.filterMap_cons, List.filterMap_nil]
  cases grantTime x cr <;> rfl

/-- `requestIsOld` in nanoseconds. -/
theorem requestIsOld_some (t0 now : Time) :
    requestIsOld (some t0) now = decide (3 * second < now.mono - t0.mono) := by
  have hlo : minDuration ≤ 3 * second := by unfold minDuration second; omega
  have hhi : 3 * second < maxDuration := by unfold maxDuration second; omega
  simp only [requestIsOld, decide_eq_decide]
  rw [show ((3 : ℚ)) = ((3 : ℤ) : ℚ) by norm_num, lt_seconds_iff, Time.lt_sub_iff hlo hhi]

/-- **Step lemma.** A call that returns writes `requests[x]` only when it is a granted
`AddRequest(x)`, and then with its clock reading. -/
theorem IndexInv.call_requests {m m' : MemPool} (hi : IndexInv outpointHash m) {c : Call}
    {r : Reply} (hc : m.call outpointHash c = some (r, m')) (x : Hash) :
    m'.requests x = (grantTime x (c, r)).or (m.requests x) := by
  rcases hi.call_cases hc with ⟨y, now, g, rfl, rfl, -, rfl⟩ | ⟨-, -, rfl, -, rfl, rfl⟩ |
    ⟨-, -, rfl, -, rfl, rfl⟩ | ⟨rfl, hcr⟩
  · cases g
    · simp [grantTime]
    · by_cases hy : y = x
      · subst hy; simp [grantTime]
      · simp [grantTime, hy, Function.update_noteq (Ne.symm hy)]
  · simp [grantTime]
  · simp [grantTime]
  · have hnone : grantTime x (c, r) = none := by
      rcases hcr with ⟨-, -, rfl, -, rfl⟩ | ⟨-, rfl, -, rfl⟩ | ⟨-, rfl, rfl⟩ | ⟨-, rfl, rfl⟩ <;> rfl
    simp [hnone]

/-- **Run lemma.** `requests[x]` is the clock reading of the last granted request for `x`. -/
theorem Reachable.requests_eq {history : List (Call × Reply)} {m : MemPool}
    (hm : Reachable outpointHash history m) (x : Hash) :
    m.requests x = (grants x history).getLast? := by
  induction hm with
  | new => rfl
  | @step history m m' c r hm hc ih =>
    rw [hm.indexInv.call_requests hc, ih]
    simp only [grants, List.filterMap_append, List.filterMap_cons, List.filterMap_nil]
    cases grantTime x (c, r) <;> simp

/-- More than three seconds from `t1` to `t2`. -/
def SpacedOut (t1 t2 : Time) : Prop := 3 * second < t2.mono - t1.mono

instance : DecidableRel SpacedOut := fun t1 t2 =>
  inferInstanceAs (Decidable (3 * second < t2.mono - t1.mono))

instance : IsTrans Time SpacedOut :=
  ⟨fun _ _ _ h12 h23 => by unfold SpacedOut second at *; omega⟩

/-- On a reachable mempool `AddRequest(x)` at `now` grants exactly when there was no grant
for `x` before, or the last one is more than three seconds older than `now`. -/
theorem Reachable.addRequest_eq {history : List (Call × Reply)} {m : MemPool}
    (hm : Reachable outpointHash history m) (x : Hash) (now : Time) :
    m.addRequest x now =
      if (m.txs x).isSome then some ((true, false), m)
      else if (grants x history).getLast?.all (SpacedOut · now) then
        some ((false, true), { m with requests := Function.update m.requests x (some now) })
      else some ((false, false), m) := by
  rw [addRequest_of_free hm.indexInv.free, hm.requests_eq]
  cases (grants x history).getLast?
  · simp [requestIsOld]
  · simp [requestIsOld_some, SpacedOut]

/-- Consecutive grants for one transaction are more than three seconds apart. -/
theorem Reachable.grants_chain {history : List (Call × Reply)} {m : MemPool}
    (hm : Reachable outpointHash history m) (x : Hash) :
    (grants x history).Chain' SpacedOut := by
  induction hm with
  | new => exact List.chain'_nil
  | @step history m m' c r hm hc ih =>
    rw [grants_append]
    cases hg : grantTime x (c, r) with
    | none => simpa using ih
    | some now =>
      obtain ⟨a, rfl, rfl⟩ := grantTime_eq_some.mp hg
      refine List.chain'_append.mpr ⟨ih, List.chain'_singleton _, fun t ht t' ht' => ?_⟩
      obtain rfl : t' = now := by simpa [eq_comm] using ht'
      rw [MemPool.call, hm.addRequest_eq] at hc
      split_ifs at hc with _ hold <;> simp at hc
      rw [Option.mem_def.mp ht] at hold
      simpa using hold

/-- `AddRequest` on every reachable mempool: it returns; for a tracked transaction it
answers `(true, false)` and changes nothing; otherwise it grants, recording `now`, exactly
when no request for `x` was granted before or the last grant is more than three seconds
older than `now`. Any two grants for one transaction are more than three seconds apart. -/
theorem reachable_addRequest {history : List (Call × Reply)} {m : MemPool}
    (hm : Reachable outpointHash history m) (x : Hash) (now : Time) :
    m.addRequest x now =
      (if (m.txs x).isSome then some ((true, false), m)
      else if (grants x history).getLast?.all (SpacedOut · now) then
        some ((false, true), { m with requests := Function.update m.requests x (some now) })
      else some ((false, false), m)) ∧
    (grants x history).Pairwise SpacedOut :=
  ⟨hm.addRequest_eq x now, List.chain'_iff_pairwise.mp (hm.grants_chain x)⟩

/-- The mempool once a request for transaction `0` was granted at clock reading `0`. -/
def afterGrant : MemPool :=
  { newMemPool with requests := Function.update newMemPool.requests 0 (some ⟨0⟩) }

theorem reachable_afterGrant (outpointHash : OutPoint → Hash) :
    Reachable outpointHash [(.addRequest 0 ⟨0⟩, .addRequest false true)] afterGrant :=
  @Reachable.step outpointHash [] _ _ _ _ .new
    (by rw [MemPool.call, addRequest_of_free rfl]; simp [newMemPool, afterGrant, requestIsOld])

/-- After a grant at `0`, a request for the same transaction at `3 s` is refused and one at
`3 s + 1 ns` is granted. -/
theorem reachable_addRequest_afterGrant :
    Reachable OutPoint.hash [(.addRequest 0 ⟨0⟩, .addRequest false true)] afterGrant ∧
      afterGrant.addRequest 0 ⟨3 * second⟩ = some ((false, false), afterGrant) ∧
      afterGrant.addRequest 0 ⟨3 * second + 1⟩ =
        some ((false, true),
          { afterGrant with requests := Function.update afterGrant.requests 0 (some ⟨3 * second + 1⟩) }) ∧
      (grants 0 [(.addRequest 0 ⟨0⟩, .addRequest false true)]).Pairwise SpacedOut := by
  have hr := reachable_afterGrant OutPoint.hash
  have hg : grants 0 [(Call.addRequest 0 ⟨0⟩, Reply.addRequest false true)] = [⟨0⟩] := rfl
  obtain ⟨h3, hp⟩ := reachable_addRequest hr 0 ⟨3 * second⟩
  obtain ⟨h4, -⟩ := reachable_addRequest hr 0 ⟨3 * second + 1⟩
  refine ⟨hr, ?_, ?_, hp⟩
  · rw [h3, hg]
    simp [afterGrant, newMemPool, SpacedOut]
  · rw [h4, hg]
    simp [afterGrant, newMemPool, SpacedOut]

/-- A request three seconds after a granted one is refused. -/
theorem addRequest_refused_three_seconds_later :
    ∃ m, newMemPool.addRequest 0 ⟨0⟩ = some ((false, true), m) ∧
      m.addRequest 0 ⟨3 * second⟩ = some ((false, false), m) := by
  refine ⟨_, rfl, ?_⟩
  rw [addRequest_of_free rfl]
  simp [newMemPool, requestIsOld_some]

end SmartContract.MemPool
