import SmartContract.MemPool.Spec
/-!
# SmartContract.MemPool.Reachable

**Histories of mempool calls and the index invariant.** The mempool is shared by every
peer connection; its mutex serialises the calls, so a history is a list of calls, each
with the reply it returned. `Reachable history m` says `NewMemPool` reaches `m` that way.

A history records only calls that returned. A `Conflicting` that deadlocks (it holds the
mutex and its nested `RemoveTransaction` locks it again) never returns: from then on every
call blocks, and the states it leaves, with the mutex held forever, are not reachable in
this sense. So "on every reachable mempool" below means "after any sequence of calls that
all returned"; the deadlock itself is shown in `SmartContract.MemPool.Conflicts`.

The index the code actually keeps is stronger than the spec's: since `AddTransaction`
never stores an appended list back, **every index list has exactly one element**, a
tracked transaction spending an outpoint with that hash (`IndexInv`). That is the
invariant `RemoveTransaction`'s `len(otherHashes) > 1` test needs: its other branch is
dead, and the single-element branch deletes only lists of the removed transaction, because
a list names the transaction that created it and no other.

`IndexInv.call` is the step lemma, one case per method, each read off the method's spec
lemma; `Reachable.indexInv` lifts it to every history.
-/

namespace SmartContract.MemPool

/-- One call of a `MemPool` method, with its arguments and the clock reading it takes. -/
inductive Call
  | addRequest (txid : Hash) (now : Time)
  | addTransaction (tx : MsgTx) (now : Time)
  | removeTransaction (hash : Hash)
  | transactionExists (hash : Hash)
  | conflicting (tx : MsgTx)
  deriving DecidableEq, Repr

/-- What a call returns. -/
inductive Reply
  | addRequest (alreadyHave shouldRequest : Bool)
  | addTransaction (conflicts : List Hash) (added : Bool)
  | removeTransaction (existed : Bool)
  | transactionExists (found : Bool)
  | conflicting (conflicts : List Hash)
  deriving DecidableEq, Repr

variable (outpointHash : OutPoint → Hash)

/-- Calling a method on `m`; `none` when the call never returns. -/
def call (m : MemPool) : Call → Option (Reply × MemPool)
  | .addRequest txid now =>
    (m.addRequest txid now).map fun r => (.addRequest r.1.1 r.1.2, r.2)
  | .addTransaction tx now =>
    (m.addTransaction outpointHash tx now).map fun r => (.addTransaction r.1.1 r.1.2, r.2)
  | .removeTransaction hash =>
    (m.removeTransaction outpointHash hash).map fun r => (.removeTransaction r.1, r.2)
  | .transactionExists hash => (m.transactionExists hash).map fun r => (.transactionExists r.1, r.2)
  | .conflicting tx => (m.conflicting outpointHash tx).map fun r => (.conflicting r.1, r.2)

/-- `NewMemPool` reaches `m` through `history`: each call, in order, returned the reply
recorded with it. -/
inductive Reachable : List (Call × Reply) → MemPool → Prop
  | new : Reachable [] newMemPool
  | step {history : List (Call × Reply)} {m m' : MemPool} {c : Call} {r : Reply} :
      Reachable history m → m.call outpointHash c = some (r, m') →
      Reachable (history ++ [(c, r)]) m'

/-! ### The index invariant -/

/-- What every reachable mempool keeps: the mutex is free, and every index list is a single
tracked transaction that spends an outpoint with that hash. -/
structure IndexInv (m : MemPool) : Prop where
  free : m.mutex = false
  single : ∀ k l, m.inputs k = some l →
    ∃ h tx, l = [h] ∧ m.txs h = some tx ∧ ∃ o ∈ tx.outPoints, outpointHash o = k

variable {outpointHash} {m m' : MemPool}

theorem IndexInv.short (hi : IndexInv outpointHash m) : Short m.inputs := by
  intro k l hk
  obtain ⟨h, -, rfl, -⟩ := hi.single k l hk
  rfl

theorem IndexInv.ne_nil (hi : IndexInv outpointHash m) (k : Hash) : m.inputs k ≠ some [] := by
  intro hk
  obtain ⟨h, -, hl, -⟩ := hi.single k [] hk
  cases hl

theorem indexInv_new : IndexInv outpointHash newMemPool :=
  ⟨rfl, fun _ _ h => by simp [newMemPool] at h⟩

/-- A call that changes neither `txs` nor `inputs` keeps the invariant. -/
theorem IndexInv.of_maps (hi : IndexInv outpointHash m) (hf : m'.mutex = false)
    (ht : m'.txs = m.txs) (hin : m'.inputs = m.inputs) : IndexInv outpointHash m' :=
  ⟨hf, fun k l hk => by rw [ht]; exact hi.single k l (hin ▸ hk)⟩

theorem IndexInv.addTransaction (hi : IndexInv outpointHash m) {tx : MsgTx} {now : Time}
    (hnew : m.txs tx.txHash = none) :
    IndexInv outpointHash { m with
      txs := Function.update m.txs tx.txHash (some (newMemPoolTx now tx)),
      inputs := ((newMemPoolTx now tx).outPoints.foldl
        (addInput outpointHash tx.txHash) ([], m.inputs)).2 } := by
  refine ⟨hi.free, fun k l hk => ?_⟩
  simp only [foldl_addInput_snd] at hk
  cases hold : m.inputs k with
  | some l' =>
    obtain ⟨h, tx', rfl, htx, hspend⟩ := hi.single k l' hold
    have hne : h ≠ tx.txHash := by rintro rfl; simp [hnew] at htx
    simp only [hold, Option.or_some, Option.some.injEq] at hk
    exact ⟨h, tx', hk.symm, by simp [hne, htx], hspend⟩
  | none =>
    simp only [hold, Option.none_or] at hk
    split at hk
    · next hspend => exact ⟨tx.txHash, _, (Option.some.inj hk).symm, by simp, hspend⟩
    · cases hk

theorem IndexInv.removeTransaction (hi : IndexInv outpointHash m) {hash : Hash} {tx : MemPoolTx}
    (htx : m.txs hash = some tx) :
    IndexInv outpointHash { m with
      inputs := tx.outPoints.foldl (removeInput outpointHash) m.inputs,
      txs := Function.update m.txs hash none } := by
  refine ⟨hi.free, fun k l hk => ?_⟩
  simp only [foldl_removeInput_of_short outpointHash hi.short] at hk
  split at hk
  · cases hk
  · next hgone =>
    obtain ⟨h, tx', rfl, htx', hspend⟩ := hi.single k l hk
    have hne : h ≠ hash := by
      rintro rfl
      rw [htx] at htx'
      cases htx'
      exact hgone hspend
    exact ⟨h, tx', rfl, by simp [hne, htx'], hspend⟩

/-- **What a call does, and what it answers**, read off each method's spec lemma:
`AddRequest(x)` answers whether `x` is tracked and writes at most `requests[x]`, and only
when it grants; `AddTransaction` adds an untracked transaction; `RemoveTransaction` removes a
tracked one; every other call that returns changes nothing, and answers that the
transaction was tracked, was not, or that nothing conflicts. -/
theorem IndexInv.call_cases (hi : IndexInv outpointHash m) {c : Call} {r : Reply}
    (hc : m.call outpointHash c = some (r, m')) :
    (∃ x now g, c = .addRequest x now ∧ r = .addRequest (m.txs x).isSome g ∧
      ((m.txs x).isSome → g = false) ∧
      m' = if g then { m with requests := Function.update m.requests x (some now) } else m) ∨
    (∃ tx now, c = .addTransaction tx now ∧ m.txs tx.txHash = none ∧ r = .addTransaction [] true ∧
      m' = { m with
        txs := Function.update m.txs tx.txHash (some (newMemPoolTx now tx)),
        inputs := ((newMemPoolTx now tx).outPoints.foldl
          (addInput outpointHash tx.txHash) ([], m.inputs)).2 }) ∨
    (∃ hash tx, c = .removeTransaction hash ∧ m.txs hash = some tx ∧ r = .removeTransaction true ∧
      m' = { m with
        inputs := tx.outPoints.foldl (removeInput outpointHash) m.inputs,
        txs := Function.update m.txs hash none }) ∨
    (m' = m ∧
      ((∃ tx now, c = .addTransaction tx now ∧ (m.txs tx.txHash).isSome ∧ r = .addTransaction [] false) ∨
        (∃ hash, c = .removeTransaction hash ∧ m.txs hash = none ∧ r = .removeTransaction false) ∨
        (∃ hash, c = .transactionExists hash ∧ r = .transactionExists (m.txs hash).isSome) ∨
        (∃ tx, c = .conflicting tx ∧ r = .conflicting []))) := by
  cases c with
  | addRequest x now =>
    simp only [MemPool.call, addRequest_of_free hi.free] at hc
    refine .inl ⟨x, now, ?_⟩
    split_ifs at hc with htracked <;> simp only [Option.map_some', Option.some.injEq,
      Prod.mk.injEq] at hc <;> obtain ⟨rfl, rfl⟩ := hc
    · exact ⟨false, rfl, by rw [htracked], fun _ => rfl, rfl⟩
    all_goals simp only [Bool.not_eq_true] at htracked
    · exact ⟨true, rfl, by rw [htracked], by simp [htracked], rfl⟩
    · exact ⟨false, rfl, by rw [htracked], fun _ => rfl, rfl⟩
  | addTransaction tx now =>
    simp only [MemPool.call, addTransaction_of_free outpointHash hi.free] at hc
    split_ifs at hc with htracked <;> simp only [Option.map_some', Option.some.injEq,
      Prod.mk.injEq] at hc <;> obtain ⟨rfl, rfl⟩ := hc
    · exact .inr (.inr (.inr ⟨rfl, .inl ⟨tx, now, rfl, htracked, rfl⟩⟩))
    · exact .inr (.inl ⟨tx, now, rfl, Option.not_isSome_iff_eq_none.mp htracked, rfl, rfl⟩)
  | removeTransaction hash =>
    simp only [MemPool.call, removeTransaction_of_free outpointHash hi.free] at hc
    split at hc <;> simp only [Option.map_some', Option.some.injEq, Prod.mk.injEq] at hc <;>
      obtain ⟨rfl, rfl⟩ := hc
    · next tx htx => exact .inr (.inr (.inl ⟨hash, tx, rfl, htx, rfl, rfl⟩))
    · next htx => exact .inr (.inr (.inr ⟨rfl, .inr (.inl ⟨hash, rfl, htx, rfl⟩)⟩))
  | transactionExists hash =>
    simp only [MemPool.call, transactionExists_of_free hi.free, Option.map_some',
      Option.some.injEq, Prod.mk.injEq] at hc
    exact .inr (.inr (.inr ⟨hc.2.symm, .inr (.inr (.inl ⟨hash, rfl, hc.1.symm⟩))⟩))
  | conflicting tx =>
    simp only [MemPool.call, conflicting_of_free outpointHash hi.ne_nil hi.free] at hc
    split_ifs at hc <;> simp only [Option.map_none', Option.map_some', Option.some.injEq,
      Prod.mk.injEq, reduceCtorEq] at hc
    exact .inr (.inr (.inr ⟨hc.2.symm, .inr (.inr (.inr ⟨tx, rfl, hc.1.symm⟩))⟩))

/-- **Step lemma.** Every call that returns keeps the index invariant. -/
theorem IndexInv.call (hi : IndexInv outpointHash m) {c : Call} {r : Reply}
    (hc : m.call outpointHash c = some (r, m')) : IndexInv outpointHash m' := by
  rcases hi.call_cases hc with ⟨-, -, -, -, -, -, rfl⟩ | ⟨tx, now, -, hnew, -, rfl⟩ |
    ⟨hash, tx, -, htx, -, rfl⟩ | ⟨rfl, -⟩
  · split <;> exact hi.of_maps hi.free rfl rfl
  · exact hi.addTransaction hnew
  · exact hi.removeTransaction htx
  · exact hi

/-- **Run lemma.** Every reachable mempool keeps the index invariant. -/
theorem Reachable.indexInv {history : List (Call × Reply)} (hm : Reachable outpointHash history m) :
    IndexInv outpointHash m := by
  induction hm with
  | new => exact indexInv_new
  | step _ hc ih => exact ih.call hc

/-- Index soundness: in every reachable mempool, every index list is non-empty and has no
hash twice, and each hash it lists is a tracked transaction spending an outpoint with that
hash. -/
theorem reachable_inputs_sound {history : List (Call × Reply)} (hm : Reachable outpointHash history m)
    {k : Hash} {l : List Hash} (hk : m.inputs k = some l) :
    l ≠ [] ∧ l.Nodup ∧
      ∀ h ∈ l, ∃ tx, m.txs h = some tx ∧ ∃ o ∈ tx.outPoints, outpointHash o = k := by
  obtain ⟨h, tx, rfl, htx, hspend⟩ := hm.indexInv.single k l hk
  exact ⟨List.cons_ne_nil _ _, by simp, by simpa using ⟨tx, htx, hspend⟩⟩

/-! ### A reachable index -/

variable (outpointHash)

/-- The outpoint both transactions spend. -/
def outPointO : OutPoint := ⟨1, 0⟩

/-- The first spender of `outPointO`. -/
def txA : MsgTx := ⟨0xA, [⟨outPointO⟩], []⟩

/-- The mempool once `txA` is added at `now`. -/
def withA (now : Time) : MemPool :=
  { txs := Function.update (fun _ => none) txA.txHash (some (newMemPoolTx now txA)),
    inputs := Function.update (fun _ => none) (outpointHash outPointO) (some [txA.txHash]),
    requests := fun _ => none,
    mutex := false }

theorem reachable_withA (now : Time) :
    Reachable outpointHash [(.addTransaction txA now, .addTransaction [] true)] (withA outpointHash now) := by
  refine @Reachable.step outpointHash [] _ _ _ _ Reachable.new ?_
  rw [MemPool.call, addTransaction_of_free outpointHash (show newMemPool.mutex = false from rfl)]
  simp [newMemPool, withA, newMemPoolTx, txA, addInput]

/-- The index of `withA` names `txA` under the hash of `outPointO`. -/
theorem inputs_sound_withA :
    Reachable OutPoint.hash [(.addTransaction txA ⟨0⟩, .addTransaction [] true)]
        (withA OutPoint.hash ⟨0⟩) ∧
      (withA OutPoint.hash ⟨0⟩).inputs outPointO.hash = some [txA.txHash] ∧
      ([txA.txHash] ≠ [] ∧ [txA.txHash].Nodup ∧ ∀ h ∈ [txA.txHash], ∃ tx,
        (withA OutPoint.hash ⟨0⟩).txs h = some tx ∧ ∃ o ∈ tx.outPoints, o.hash = outPointO.hash) :=
  have hk : (withA OutPoint.hash ⟨0⟩).inputs outPointO.hash = some [txA.txHash] := by simp [withA]
  ⟨reachable_withA _ _, hk, reachable_inputs_sound (reachable_withA _ _) hk⟩

end SmartContract.MemPool
