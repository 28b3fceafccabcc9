import SmartContract.MemPool.Reachable
/-!
# SmartContract.MemPool.Tracked

**The transaction table refines the spec's set of tracked transactions.** Apart from its
index, the spec describes the mempool as a set of tracked transaction hashes: `AddRequest`
answers `alreadyHave` exactly for a tracked transaction and then never asks for it;
`AddTransaction` adds its transaction and reports `added` exactly when it was untracked;
`RemoveTransaction` removes its hash and reports whether it was tracked; `TransactionExists`
is a lookup; `Conflicting` evicts the transactions it reports. The conflicts that
`AddTransaction` and `Conflicting` report are tracked transactions.

That description is a machine over the set (`trackRun`): each reply must agree with the set
at its point (`agrees`), and each call changes the set as the spec says (`trackStep`).
Whatever the index does (`SmartContract.MemPool.Conflicts`), the transaction table refines
the machine: on every reachable mempool the machine accepts the whole history of calls and
replies, and ends in exactly the hashes `txs` holds (`Reachable.trackRun_eq`).

## Proof shape

`IndexInv.call_cases` says what each call does and answers; `IndexInv.call_tracked` reads
the machine's step off it, one case per call, and `Reachable.trackRun_eq` is its induction
over the history.
-/

namespace SmartContract.MemPool

variable {outpointHash : OutPoint → Hash} {m m' : MemPool}

/-- The hashes `m` tracks: the keys of `txs`. -/
def tracked (m : MemPool) (h : Hash) : Bool := (m.txs h).isSome

/-- What the spec says a call's reply tells about the tracked set `S`. -/
def agrees (S : Hash → Bool) : Call × Reply → Bool
  | (.addRequest x _, .addRequest alreadyHave shouldRequest) =>
    alreadyHave == S x && !(alreadyHave && shouldRequest)
  | (.addTransaction tx _, .addTransaction conflicts added) =>
    added == !S tx.txHash && conflicts.all S
  | (.removeTransaction hash, .removeTransaction existed) => existed == S hash
  | (.transactionExists hash, .transactionExists found) => found == S hash
  | (.conflicting _, .conflicting conflicts) => conflicts.all S
  | _ => false

/-- How the spec says a call changes the tracked set. -/
def trackStep (S : Hash → Bool) : Call × Reply → Hash → Bool
  | (.addTransaction tx _, _) => Function.update S tx.txHash true
  | (.removeTransaction hash, _) => Function.update S hash false
  | (.conflicting _, .conflicting conflicts) => fun h => S h && !conflicts.contains h
  | _ => S

/-- The spec's machine over a history, from the empty set: the tracked set at its end, or
`none` at the first reply that disagrees. -/
def trackRun (history : List (Call × Reply)) : Option (Hash → Bool) :=
  history.foldlM (fun S cr => if agrees S cr then some (trackStep S cr) else none) fun _ => false

theorem tracked_update (m : MemPool) (h : Hash) (v : Option MemPoolTx) :
    tracked { m with txs := Function.update m.txs h v } = Function.update m.tracked h v.isSome := by
  funext k
  by_cases hk : k = h
  · subst hk; simp [tracked]
  · simp [tracked, hk]

/-- **Step lemma.** Every call that returns answers as the spec's set machine does, and
changes the tracked hashes as it does. -/
theorem IndexInv.call_tracked (hi : IndexInv outpointHash m) {c : Call} {r : Reply}
    (hc : m.call outpointHash c = some (r, m')) :
    agrees m.tracked (c, r) = true ∧ m'.tracked = trackStep m.tracked (c, r) := by
  rcases hi.call_cases hc with ⟨x, now, g, rfl, rfl, hg, rfl⟩ |
    ⟨tx, now, rfl, hnew, rfl, rfl⟩ | ⟨hash, tx, rfl, htx, rfl, rfl⟩ |
    ⟨rfl, ⟨tx, now, rfl, htr, rfl⟩ | ⟨hash, rfl, hnone, rfl⟩ | ⟨hash, rfl, rfl⟩ | ⟨tx, rfl, rfl⟩⟩
  · refine ⟨?_, by split <;> rfl⟩
    cases ht : (m.txs x).isSome
    · simp [agrees, tracked, ht]
    · simp [agrees, tracked, ht, hg ht]
  · exact ⟨by simp [agrees, tracked, hnew], tracked_update m _ _⟩
  · exact ⟨by simp [agrees, tracked, htx], tracked_update m _ _⟩
  · exact ⟨by simp [agrees, tracked, htr], (Function.update_eq_self_iff.mpr htr.symm).symm⟩
  · exact ⟨by simp [agrees, tracked, hnone],
      (Function.update_eq_self_iff.mpr (by simp [tracked, hnone])).symm⟩
  · exact ⟨by simp [agrees, tracked], rfl⟩
  · exact ⟨by simp [agrees], by funext h; simp [trackStep]⟩

/-- **The transaction table refines the spec's set of tracked transactions.** On every
reachable mempool, every reply of its history agreed with the set of tracked hashes at its
point (`agrees`), the set moved as the spec says (`trackStep`), and the set at the end is
exactly the hashes `txs` holds. -/
theorem Reachable.trackRun_eq {history : List (Call × Reply)}
    (hm : Reachable outpointHash history m) : trackRun history = some m.tracked := by
  induction hm with
  | new => rfl
  | step hm hc ih =>
    obtain ⟨hag, hst⟩ := hm.indexInv.call_tracked hc
    simp only [trackRun, List.foldlM_append] at ih ⊢
    simp [ih, hag, hst]

/-- `txA` added twice: the second `AddTransaction` reports it tracked and changes nothing. -/
theorem reachable_withA_twice (now now' : Time) :
    Reachable outpointHash [(.addTransaction txA now, .addTransaction [] true),
      (.addTransaction txA now', .addTransaction [] false)] (withA outpointHash now) := by
  refine (reachable_withA outpointHash now).step ?_
  rw [MemPool.call,
    addTransaction_of_free outpointHash (show (withA outpointHash now).mutex = false from rfl)]
  simp [withA, txA]

theorem trackRun_withA_twice :
    Reachable OutPoint.hash [(.addTransaction txA ⟨0⟩, .addTransaction [] true),
        (.addTransaction txA ⟨1⟩, .addTransaction [] false)] (withA OutPoint.hash ⟨0⟩) ∧
      trackRun [(.addTransaction txA ⟨0⟩, .addTransaction [] true),
        (.addTransaction txA ⟨1⟩, .addTransaction [] false)] = some (withA OutPoint.hash ⟨0⟩).tracked :=
  ⟨reachable_withA_twice _ _, Reachable.trackRun_eq (reachable_withA_twice _ _)⟩

end SmartContract.MemPool
