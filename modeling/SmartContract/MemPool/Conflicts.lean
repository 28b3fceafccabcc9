import SmartContract.MemPool.Reachable
/-!
# SmartContract.MemPool.Conflicts

**What the mempool does with double spends.** The spec describes an index that records
every spender of every outpoint, an `AddTransaction` that reports earlier spenders, and a
`Conflicting` that evicts them. On every reachable mempool the code does something else,
and the general statements here say exactly what:

* `AddTransaction` only indexes outpoint hashes that had no list, and its conflict list is
  always empty (`addTransaction_inputs`, `addTransaction_conflicts_eq_nil`);
* `RemoveTransaction` deletes the list of every outpoint hash the removed transaction
  spends, whichever transaction that list names (`reachable_removeTransaction_inputs`);
* `Conflicting` never returns as soon as one input of its transaction spends an indexed
  outpoint hash, and otherwise returns nothing and changes nothing
  (`reachable_conflicting_eq`).

The smallest history showing each departure is the double spend below: `txA` and `txB`
spend the same outpoint `outPointO`. Every statement holds for every `outpointHash`.
-/

namespace SmartContract.MemPool

variable (outpointHash : OutPoint → Hash)

/-! ### A second spender of `outPointO` -/

/-- The second spender of `outPointO`. -/
def txB : MsgTx := ⟨0xB, [⟨outPointO⟩], []⟩

/-- The mempool once `txA` and then `txB` are added at `now`. -/
def withAB (now : Time) : MemPool :=
  { withA outpointHash now with
    txs := Function.update (withA outpointHash now).txs txB.txHash (some (newMemPoolTx now txB)) }

theorem withA_addTransaction_txB (now : Time) :
    (withA outpointHash now).addTransaction outpointHash txB now =
      some (([], true), withAB outpointHash now) := by
  rw [addTransaction_of_free outpointHash (show (withA outpointHash now).mutex = false from rfl)]
  simp [withA, withAB, newMemPoolTx, txA, txB, addInput]

theorem reachable_withAB (now : Time) :
    Reachable outpointHash [(.addTransaction txA now, .addTransaction [] true),
      (.addTransaction txB now, .addTransaction [] true)] (withAB outpointHash now) :=
  Reachable.step (reachable_withA outpointHash now)
    (by rw [MemPool.call, withA_addTransaction_txB]; rfl)

/-! ### What each method does on a reachable mempool -/

/-- `AddTransaction` never reports a conflict. -/
theorem addTransaction_conflicts_eq_nil {m m' : MemPool} {tx : MsgTx} {now : Time}
    {conflicts : List Hash} {added : Bool}
    (h : m.addTransaction outpointHash tx now = some ((conflicts, added), m')) : conflicts = [] := by
  cases hm : m.mutex
  · rw [addTransaction_of_free outpointHash hm] at h
    split_ifs at h <;> simp_all
  · simp [addTransaction, hm] at h

/-- Adding `txB`, whose outpoint `txA` already has indexed, reports no conflict. -/
theorem addTransaction_conflicts_eq_nil_txB :
    (∃ i ∈ txB.txIn, (withA OutPoint.hash ⟨0⟩).inputs i.previousOutPoint.hash = some [txA.txHash]) ∧
      (withA OutPoint.hash ⟨0⟩).addTransaction OutPoint.hash txB ⟨0⟩ =
        some (([], true), withAB OutPoint.hash ⟨0⟩) ∧
      ([] : List Hash) = [] :=
  ⟨⟨⟨outPointO⟩, List.mem_singleton_self _, by simp [withA]⟩, withA_addTransaction_txB OutPoint.hash ⟨0⟩,
    addTransaction_conflicts_eq_nil OutPoint.hash (withA_addTransaction_txB OutPoint.hash ⟨0⟩)⟩

/-- `AddTransaction` of an untracked transaction keeps every existing index list as it
was, and creates `[tx.txHash]` only at the outpoint hashes that had none. -/
theorem addTransaction_inputs {m m' : MemPool} (hm : m.mutex = false) {tx : MsgTx}
    (hnew : m.txs tx.txHash = none) {now : Time} {r : List Hash × Bool}
    (h : m.addTransaction outpointHash tx now = some (r, m')) (k : Hash) :
    m'.inputs k = (m.inputs k).or
      (if ∃ i ∈ tx.txIn, outpointHash i.previousOutPoint = k then some [tx.txHash] else none) := by
  rw [addTransaction_of_free outpointHash hm, hnew] at h
  simp only [Option.isSome_none, Bool.false_eq_true, ite_false, Option.some.injEq,
    Prod.mk.injEq] at h
  obtain ⟨-, rfl⟩ := h
  simp [foldl_addInput_snd, newMemPoolTx]

/-- On a reachable mempool, `RemoveTransaction` of a tracked transaction deletes the index
list of every outpoint hash it spends, whoever that list names, and no other list. -/
theorem reachable_removeTransaction_inputs {history : List (Call × Reply)} {m m' : MemPool}
    (hm : Reachable outpointHash history m) {hash : Hash} {tx : MemPoolTx}
    (htx : m.txs hash = some tx) {r : Bool}
    (h : m.removeTransaction outpointHash hash = some (r, m')) (k : Hash) :
    m'.inputs k = if ∃ o ∈ tx.outPoints, outpointHash o = k then none else m.inputs k := by
  have hi := hm.indexInv
  rw [removeTransaction_of_free outpointHash hi.free, htx] at h
  simp only [Option.some.injEq, Prod.mk.injEq] at h
  obtain ⟨-, rfl⟩ := h
  exact foldl_removeInput_of_short outpointHash hi.short _ k

/-- On a reachable mempool, `Conflicting(tx)` never returns when an input of `tx` spends an
indexed outpoint hash, and otherwise returns no conflict and leaves the mempool as it was. -/
theorem reachable_conflicting_eq {history : List (Call × Reply)} {m : MemPool}
    (hm : Reachable outpointHash history m) (tx : MsgTx) :
    m.conflicting outpointHash tx =
      if ∃ i ∈ tx.txIn, (m.inputs (outpointHash i.previousOutPoint)).isSome then none
      else some ([], m) :=
  conflicting_of_free outpointHash hm.indexInv.ne_nil hm.indexInv.free tx

/-- After `AddTransaction(txA)`, `Conflicting(txA)` finds its own outpoint indexed. -/
theorem conflicting_eq_withA :
    Reachable OutPoint.hash [(.addTransaction txA ⟨0⟩, .addTransaction [] true)]
        (withA OutPoint.hash ⟨0⟩) ∧
      (withA OutPoint.hash ⟨0⟩).conflicting OutPoint.hash txA =
        if ∃ i ∈ txA.txIn, ((withA OutPoint.hash ⟨0⟩).inputs i.previousOutPoint.hash).isSome then none
        else some ([], withA OutPoint.hash ⟨0⟩) :=
  ⟨reachable_withA _ _, reachable_conflicting_eq _ (reachable_withA _ _) txA⟩

/-! ### Adding and removing again -/

/-- **`RemoveTransaction` undoes `AddTransaction` only where nothing was indexed.** On every
reachable mempool, adding an untracked transaction and then removing it both return, the
removal answering `true`, and leave `txs` and `requests` as they were; the index ends with
no list at any outpoint hash the transaction spends, and as it was at every other. So the
two calls leave the mempool as it was exactly when none of those outpoint hashes was
indexed before. -/
theorem Reachable.addTransaction_removeTransaction {history : List (Call × Reply)} {m : MemPool}
    (hm : Reachable outpointHash history m) {tx : MsgTx} (hnew : m.txs tx.txHash = none) (now : Time) :
    ∃ m₁ m₂, m.call outpointHash (.addTransaction tx now) = some (.addTransaction [] true, m₁) ∧
      m₁.call outpointHash (.removeTransaction tx.txHash) = some (.removeTransaction true, m₂) ∧
      m₂.txs = m.txs ∧ m₂.requests = m.requests ∧
      (∀ k, m₂.inputs k =
        if ∃ i ∈ tx.txIn, outpointHash i.previousOutPoint = k then none else m.inputs k) ∧
      (m₂ = m ↔ ∀ i ∈ tx.txIn, m.inputs (outpointHash i.previousOutPoint) = none) := by
  have hi := hm.indexInv
  obtain ⟨m₁, hadd, htxs₁, hreq₁⟩ : ∃ m₁, m.addTransaction outpointHash tx now = some (([], true), m₁) ∧
      m₁.txs = Function.update m.txs tx.txHash (some (newMemPoolTx now tx)) ∧ m₁.requests = m.requests := by
    rw [addTransaction_of_free outpointHash hi.free, hnew]
    exact ⟨_, rfl, rfl, rfl⟩
  have hcall₁ : m.call outpointHash (.addTransaction tx now) = some (.addTransaction [] true, m₁) := by
    rw [MemPool.call, hadd]; rfl
  have hm₁ := hm.step hcall₁
  have htx₁ : m₁.txs tx.txHash = some (newMemPoolTx now tx) := by simp [htxs₁]
  obtain ⟨m₂, hrem, htxs₂, hreq₂⟩ : ∃ m₂, m₁.removeTransaction outpointHash tx.txHash = some (true, m₂) ∧
      m₂.txs = Function.update m₁.txs tx.txHash none ∧ m₂.requests = m₁.requests := by
    rw [removeTransaction_of_free outpointHash hm₁.indexInv.free, htx₁]
    exact ⟨_, rfl, rfl, rfl⟩
  have hcall₂ : m₁.call outpointHash (.removeTransaction tx.txHash) = some (.removeTransaction true, m₂) := by
    rw [MemPool.call, hrem]; rfl
  have htxs : m₂.txs = m.txs := by
    rw [htxs₂, htxs₁, Function.update_idem, Function.update_eq_self_iff, hnew]
  have hinputs : ∀ k, m₂.inputs k =
      if ∃ i ∈ tx.txIn, outpointHash i.previousOutPoint = k then none else m.inputs k := by
    intro k
    rw [reachable_removeTransaction_inputs outpointHash hm₁ htx₁ hrem k,
      addTransaction_inputs outpointHash hi.free hnew hadd k]
    split_ifs with hk hk' <;> simp_all [newMemPoolTx]
  refine ⟨m₁, m₂, hcall₁, hcall₂, htxs, hreq₂.trans hreq₁, hinputs, ⟨?_, fun hnone => ?_⟩⟩
  · intro h i hi
    have hk := hinputs (outpointHash i.previousOutPoint)
    rwa [if_pos ⟨i, hi, rfl⟩, h] at hk
  · have hin : m₂.inputs = m.inputs := funext fun k => by
      rw [hinputs]
      split_ifs with hk
      · obtain ⟨i, hi, rfl⟩ := hk
        exact (hnone i hi).symm
      · rfl
    calc m₂ = { txs := m₂.txs, inputs := m₂.inputs, requests := m₂.requests, mutex := false } := by
          rw [← (hm₁.step hcall₂).indexInv.free]
      _ = m := by rw [htxs, hin, hreq₂, hreq₁, mk_eq_of_free hi.free]

/-- Adding and removing `txB` after `txA`: the list `txA` had at `outPointO` is lost. -/
theorem addTransaction_removeTransaction_txB :
    Reachable OutPoint.hash [(.addTransaction txA ⟨0⟩, .addTransaction [] true)]
        (withA OutPoint.hash ⟨0⟩) ∧
      (withA OutPoint.hash ⟨0⟩).txs txB.txHash = none ∧
      (withA OutPoint.hash ⟨0⟩).inputs outPointO.hash = some [txA.txHash] ∧
      ∃ m₁ m₂, (withA OutPoint.hash ⟨0⟩).call OutPoint.hash (.addTransaction txB ⟨0⟩) =
          some (.addTransaction [] true, m₁) ∧
        m₁.call OutPoint.hash (.removeTransaction txB.txHash) = some (.removeTransaction true, m₂) ∧
        m₂.txs = (withA OutPoint.hash ⟨0⟩).txs ∧ m₂.requests = (withA OutPoint.hash ⟨0⟩).requests ∧
        (∀ k, m₂.inputs k = if ∃ i ∈ txB.txIn, i.previousOutPoint.hash = k then none
          else (withA OutPoint.hash ⟨0⟩).inputs k) ∧
        (m₂ = withA OutPoint.hash ⟨0⟩ ↔
          ∀ i ∈ txB.txIn, (withA OutPoint.hash ⟨0⟩).inputs i.previousOutPoint.hash = none) :=
  have hr := reachable_withA OutPoint.hash ⟨0⟩
  have hnew : (withA OutPoint.hash ⟨0⟩).txs txB.txHash = none := rfl
  ⟨hr, hnew, by simp [withA], Reachable.addTransaction_removeTransaction OutPoint.hash hr hnew ⟨0⟩⟩

/-! ### The double spend -/

/-- After `AddTransaction(txA)`, `Conflicting(txB)` never returns: its first eviction
locks the mutex `Conflicting` holds. -/
theorem conflicting_deadlocks_on_double_spend (now : Time) :
    Reachable outpointHash [(.addTransaction txA now, .addTransaction [] true)]
        (withA outpointHash now) ∧
      (withA outpointHash now).conflicting outpointHash txB = none := by
  refine ⟨reachable_withA outpointHash now, ?_⟩
  rw [conflicting_of_free outpointHash (reachable_withA outpointHash now).indexInv.ne_nil rfl]
  simp [withA, txB]

/-- After `AddTransaction(txA)` and `AddTransaction(txB)`, `txB` is tracked and spends
`outPointO`, but the index list of `outPointO` names only `txA`. -/
theorem addTransaction_leaves_second_spender_unindexed (now : Time) :
    Reachable outpointHash [(.addTransaction txA now, .addTransaction [] true),
        (.addTransaction txB now, .addTransaction [] true)] (withAB outpointHash now) ∧
      (withAB outpointHash now).txs txB.txHash = some ⟨now, [outPointO]⟩ ∧
      (withAB outpointHash now).inputs (outpointHash outPointO) = some [txA.txHash] :=
  ⟨reachable_withAB outpointHash now, by simp [withAB, newMemPoolTx, txB], by simp [withAB, withA]⟩

/-- `AddTransaction(txB)` after `AddTransaction(txA)` reports no conflict, though `txA` is
tracked and spends the outpoint `txB` spends. -/
theorem addTransaction_misses_earlier_spender (now : Time) :
    Reachable outpointHash [(.addTransaction txA now, .addTransaction [] true)]
        (withA outpointHash now) ∧
      (withA outpointHash now).txs txA.txHash = some ⟨now, [outPointO]⟩ ∧
      (withA outpointHash now).addTransaction outpointHash txB now =
        some (([], true), withAB outpointHash now) :=
  ⟨reachable_withA outpointHash now, by simp [withA, newMemPoolTx, txA],
    withA_addTransaction_txB outpointHash now⟩

/-- Removing `txB` from the double spend deletes the index list of `outPointO`, and with
it the entry of `txA`, which stays tracked and still spends `outPointO`. -/
theorem removeTransaction_drops_cospender_entry (now : Time) :
    Reachable outpointHash [(.addTransaction txA now, .addTransaction [] true),
        (.addTransaction txB now, .addTransaction [] true)] (withAB outpointHash now) ∧
      (withAB outpointHash now).inputs (outpointHash outPointO) = some [txA.txHash] ∧
      ∃ m', (withAB outpointHash now).removeTransaction outpointHash txB.txHash = some (true, m') ∧
        m'.txs txA.txHash = some ⟨now, [outPointO]⟩ ∧ m'.inputs (outpointHash outPointO) = none := by
  refine ⟨reachable_withAB outpointHash now, by simp [withAB, withA], ?_⟩
  rw [removeTransaction_of_free outpointHash (show (withAB outpointHash now).mutex = false from rfl)]
  simp [withAB, withA, newMemPoolTx, txA, txB, removeInput, Short]

end SmartContract.MemPool
