import SmartContract.MemPool.Basic
/-!
# SmartContract.MemPool.Spec

**One spec lemma per mempool method.** Each lemma says what a call from a free mutex
returns and leaves behind, in terms of the maps alone; the invariant and the theorems
are read off these and never unfold a method again.

The two loops are summarised first:

* `AddTransaction`'s loop leaves `result` as it was (`foldl_addInput_fst`, from
  `take_appendIfNotContained`), and adds `[hash]` exactly at the outpoint hashes that had
  no list (`foldl_addInput_snd`);
* on an index whose lists have at most one element, `RemoveTransaction`'s loop deletes
  every outpoint hash of the removed transaction, whoever its list names
  (`foldl_removeInput_of_short`).
-/

namespace SmartContract.MemPool

variable (outpointHash : OutPoint → Hash)

/-! ### `AddTransaction`'s loop -/

theorem appendIfNotContained_eq_append (list add : List Hash) :
    ∃ s, appendIfNotContained list add = list ++ s := by
  induction add generalizing list with
  | nil => exact ⟨[], by simp [appendIfNotContained]⟩
  | cons a add ih =>
    simp only [appendIfNotContained, List.foldl_cons]
    split
    · exact ih list
    · obtain ⟨s, hs⟩ := ih (list ++ [a])
      exact ⟨[a] ++ s, by simpa [appendIfNotContained] using hs⟩

/-- What `appendIfNotContained` appends lies past the caller's length. -/
theorem take_appendIfNotContained (list add : List Hash) :
    (appendIfNotContained list add).take list.length = list := by
  obtain ⟨s, hs⟩ := appendIfNotContained_eq_append list add
  simp [hs]

theorem addInput_fst (hash : Hash) (acc : List Hash × (Hash → Option (List Hash))) (o : OutPoint) :
    (addInput outpointHash hash acc o).1 = acc.1 := by
  unfold addInput
  split <;> simp [take_appendIfNotContained]

theorem addInput_snd (hash : Hash) (acc : List Hash × (Hash → Option (List Hash))) (o : OutPoint) :
    (addInput outpointHash hash acc o).2 =
      if (acc.2 (outpointHash o)).isSome then acc.2
      else Function.update acc.2 (outpointHash o) (some [hash]) := by
  unfold addInput
  split <;> simp_all

/-- `AddTransaction`'s `result` is never more than it started as. -/
theorem foldl_addInput_fst (hash : Hash) (ops : List OutPoint) (acc) :
    (ops.foldl (addInput outpointHash hash) acc).1 = acc.1 := by
  induction ops generalizing acc with
  | nil => rfl
  | cons o ops ih => rw [List.foldl_cons, ih, addInput_fst]

/-- `AddTransaction`'s loop adds `[hash]` at the outpoint hashes that had no list, and
nowhere else. -/
theorem foldl_addInput_snd (hash : Hash) (ops : List OutPoint) (acc) (k : Hash) :
    (ops.foldl (addInput outpointHash hash) acc).2 k =
      (acc.2 k).or (if ∃ o ∈ ops, outpointHash o = k then some [hash] else none) := by
  induction ops generalizing acc with
  | nil => simp
  | cons o ops ih =>
    rw [List.foldl_cons, ih, addInput_snd]
    by_cases hk : outpointHash o = k
    · subst hk
      cases h : acc.2 (outpointHash o) <;> simp [h]
    · split <;> simp [Function.update_noteq (Ne.symm hk), hk]

/-! ### `RemoveTransaction`'s loop -/

/-- An index whose lists have at most one element. -/
def Short (inputs : Hash → Option (List Hash)) : Prop :=
  ∀ k l, inputs k = some l → l.length ≤ 1

theorem removeInput_of_short {inputs : Hash → Option (List Hash)} (hs : Short inputs) (o : OutPoint) :
    removeInput outpointHash inputs o = Function.update inputs (outpointHash o) none := by
  unfold removeInput
  split
  · next h => exact ((@Function.update_eq_self_iff _ _ _ inputs _ none).mpr h.symm).symm
  · next l h => simp [show ¬1 < l.length from not_lt.mpr (hs _ _ h)]

theorem Short.update_none {inputs : Hash → Option (List Hash)} (hs : Short inputs) (k : Hash) :
    Short (Function.update inputs k none) := by
  intro k' l h
  by_cases hk : k' = k
  · subst hk; simp at h
  · exact hs k' l (by simpa [hk] using h)

/-- On an index of short lists, `RemoveTransaction`'s loop deletes the list of every
outpoint the transaction spends, whoever it names. -/
theorem foldl_removeInput_of_short {inputs : Hash → Option (List Hash)} (hs : Short inputs)
    (ops : List OutPoint) (k : Hash) :
    ops.foldl (removeInput outpointHash) inputs k =
      if ∃ o ∈ ops, outpointHash o = k then none else inputs k := by
  induction ops generalizing inputs with
  | nil => simp
  | cons o ops ih =>
    rw [List.foldl_cons, removeInput_of_short outpointHash hs, ih (hs.update_none _)]
    by_cases hk : outpointHash o = k
    · subst hk; simp
    · simp [Function.update_noteq (Ne.symm hk), hk]

/-! ### The methods, called on a free mutex -/

variable {m : MemPool}

theorem unlock_lock (h : m.mutex = false) : { m with mutex := true }.unlock = m := by
  cases m; simp_all [unlock]

theorem mk_eq_of_free (h : m.mutex = false) :
    { txs := m.txs, inputs := m.inputs, requests := m.requests, mutex := false } = m := by
  cases m; simp_all

theorem addRequest_of_free (h : m.mutex = false) (txid : Hash) (now : Time) :
    m.addRequest txid now =
      if (m.txs txid).isSome then some ((true, false), m)
      else if requestIsOld (m.requests txid) now then
        some ((false, true), { m with requests := Function.update m.requests txid (some now) })
      else some ((false, false), m) := by
  rw [addRequest, withLock_of_free h]
  split_ifs <;> simp [unlock, h, mk_eq_of_free h]

/-- `AddTransaction` on a free mutex: an untracked transaction is added with its outpoints,
its new outpoint hashes are indexed, and the conflict list is always empty. -/
theorem addTransaction_of_free (h : m.mutex = false) (tx : MsgTx) (now : Time) :
    m.addTransaction outpointHash tx now =
      if (m.txs tx.txHash).isSome then some (([], false), m)
      else some (([], true), { m with
        txs := Function.update m.txs tx.txHash (some (newMemPoolTx now tx)),
        inputs := ((newMemPoolTx now tx).outPoints.foldl
          (addInput outpointHash tx.txHash) ([], m.inputs)).2 }) := by
  rw [addTransaction, withLock_of_free h]
  split_ifs
  · simp [unlock_lock h]
  · simp [unlock, h, foldl_addInput_fst]

theorem removeTransaction_of_free (h : m.mutex = false) (hash : Hash) :
    m.removeTransaction outpointHash hash =
      match m.txs hash with
      | some tx => some (true, { m with
          inputs := tx.outPoints.foldl (removeInput outpointHash) m.inputs,
          txs := Function.update m.txs hash none })
      | none => some (false, m) := by
  rw [removeTransaction, withLock_of_free h]
  split <;> simp_all [unlock, mk_eq_of_free h]

theorem transactionExists_of_free (h : m.mutex = false) (hash : Hash) :
    m.transactionExists hash = some ((m.txs hash).isSome, m) := by
  simp [transactionExists, withLock_of_free h, unlock_lock h]

/-! ### `Conflicting` -/

/-- An eviction attempted while the mutex is held blocks. -/
theorem foldlM_evict_of_held (acc : List Hash × MemPool) (h : acc.2.mutex = true)
    {list : List Hash} (hl : list ≠ []) : list.foldlM (evict outpointHash) acc = none := by
  cases list with
  | nil => contradiction
  | cons x xs => simp [evict, removeTransaction, h]

/-- With the mutex held and no empty index list, `Conflicting`'s loop blocks at the first
input whose outpoint hash is indexed, and changes nothing when there is none. -/
theorem foldlM_conflictingInput (m : MemPool) (hne : ∀ k, m.inputs k ≠ some [])
    (h : m.mutex = true) (txIn : List TxIn) (r : List Hash) :
    txIn.foldlM (conflictingInput outpointHash) (r, m) =
      if ∃ i ∈ txIn, (m.inputs (outpointHash i.previousOutPoint)).isSome then none
      else some (r, m) := by
  induction txIn with
  | nil => simp
  | cons i txIn ih =>
    rw [List.foldlM_cons]
    cases hi : m.inputs (outpointHash i.previousOutPoint) with
    | none => simp [conflictingInput, hi, ih]
    | some list =>
      have hl : list ≠ [] := fun hl => hne _ (hl ▸ hi)
      simp [conflictingInput, hi, foldlM_evict_of_held outpointHash (r, m) h hl]

/-- `Conflicting` on a free mutex and an index without empty lists: it blocks as soon as
one input of `tx` spends an indexed outpoint hash, and otherwise reports nothing. -/
theorem conflicting_of_free (hne : ∀ k, m.inputs k ≠ some []) (h : m.mutex = false) (tx : MsgTx) :
    m.conflicting outpointHash tx =
      if ∃ i ∈ tx.txIn, (m.inputs (outpointHash i.previousOutPoint)).isSome then none
      else some ([], m) := by
  rw [conflicting, withLock_of_free h,
    foldlM_conflictingInput outpointHash { m with mutex := true } hne rfl]
  split_ifs <;> simp [unlock_lock h]

end SmartContract.MemPool
