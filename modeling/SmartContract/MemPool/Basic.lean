import SmartContract.Wire
import Mathlib.Logic.Function.Basic
import Mathlib.Data.List.Basic
/-!
# SmartContract.MemPool.Basic

**The mempool** of `pkg/spynode/handlers/data/mempool.go`: the transactions announced but
not yet confirmed, an index from outpoint hash to the transactions spending that outpoint,
and the time each transaction was last requested.

Design points:

* The three Go maps are functions into `Option`, updated with `Function.update`.
* `mutex` records whether the `sync.Mutex` is held. Every method locks it and unlocks it in
  a `defer`, so calls are atomic with respect to each other and the model runs them one at a
  time. Go's mutex is not reentrant: `Conflicting` calls `RemoveTransaction`, which locks the
  mutex `Conflicting` already holds. `lock` answers `none` there, and `none` is a call that
  never returns (nothing can unlock the mutex while its holder is blocked).
* Slices are lists, with the two places where Go's slice aliasing shows kept exact. A callee
  that appends to a slice it got by value leaves the caller's length unchanged, so the caller
  sees only its own prefix (`addInput`). Removing an element in place shifts the shared
  backing array while the map's slice keeps its length (`shiftDown`).
* `OutPoint.OutpointHash()` is the function `outpointHash`, an argument of every method
  that reads the index.
-/

namespace SmartContract

/-- `memPoolTx`: when a transaction was first seen, and the outpoints its inputs spend. -/
structure MemPoolTx where
  time : Time
  outPoints : List OutPoint
  deriving DecidableEq, Repr

/-- `newMemPoolTx`: the previous outpoints of `tx`'s inputs, in order. -/
def newMemPoolTx (time : Time) (tx : MsgTx) : MemPoolTx :=
  { time, outPoints := tx.txIn.map (·.previousOutPoint) }

/-- `MemPool`: the tracked transactions, the input index and the request times. -/
structure MemPool where
  txs : Hash → Option MemPoolTx
  inputs : Hash → Option (List Hash)
  requests : Hash → Option Time
  mutex : Bool

/-- `NewMemPool`: empty maps, mutex free. -/
def newMemPool : MemPool := ⟨fun _ => none, fun _ => none, fun _ => none, false⟩

instance : Inhabited MemPool := ⟨newMemPool⟩

namespace MemPool

variable {α : Type} (outpointHash : OutPoint → Hash)

/-! ### The mutex -/

/-- `mutex.Lock()`, `none` when the mutex is already held. -/
def lock (m : MemPool) : Option MemPool := if m.mutex then none else some { m with mutex := true }

/-- `mutex.Unlock()`. -/
def unlock (m : MemPool) : MemPool := { m with mutex := false }

/-- `mutex.Lock(); defer mutex.Unlock()` around a method body. -/
def withLock (m : MemPool) (body : MemPool → Option (α × MemPool)) : Option (α × MemPool) := do
  let (a, m) ← body (← m.lock)
  pure (a, m.unlock)

/-! ### `AddRequest` -/

/-- `!requested || now.Sub(requestTime).Seconds() > 3`. -/
def requestIsOld (requested : Option Time) (now : Time) : Bool :=
  match requested with
  | none => true
  | some requestTime => (3 : ℚ) < seconds (now.sub requestTime)

/-- `AddRequest(txid)` at clock reading `now`: (already have it, should request it). -/
def addRequest (m : MemPool) (txid : Hash) (now : Time) : Option ((Bool × Bool) × MemPool) :=
  m.withLock fun m =>
    if (m.txs txid).isSome then some ((true, false), m)
    else if requestIsOld (m.requests txid) now then
      some ((false, true), { m with requests := Function.update m.requests txid (some now) })
    else some ((false, false), m)

/-! ### `AddTransaction` -/

/-- `appendIfNotContained(list, add)`: the callee's own `list` once every element of `add`
not already in it has been appended. -/
def appendIfNotContained (list add : List Hash) : List Hash :=
  add.foldl (fun list addHash => if list.contains addHash then list else list ++ [addHash]) list

/-- One iteration of `AddTransaction`'s loop over the new transaction's outpoints, on the
pair (`result`, `inputs`). `appendIfNotContained(result, list)` gets `result` by value, so
the caller keeps its own length; `list = append(list, &hash)` is never stored back. -/
def addInput (hash : Hash) (acc : List Hash × (Hash → Option (List Hash))) (outpoint : OutPoint) :
    List Hash × (Hash → Option (List Hash)) :=
  match acc.2 (outpointHash outpoint) with
  | some list => ((appendIfNotContained acc.1 list).take acc.1.length, acc.2)
  | none => (acc.1, Function.update acc.2 (outpointHash outpoint) (some [hash]))

/-- `AddTransaction(tx)` at clock reading `now`: (conflicting transactions, added). -/
def addTransaction (m : MemPool) (tx : MsgTx) (now : Time) :
    Option ((List Hash × Bool) × MemPool) :=
  m.withLock fun m =>
    if (m.txs tx.txHash).isSome then some (([], false), m)
    else
      let newTx := newMemPoolTx now tx
      let (result, inputs) := newTx.outPoints.foldl (addInput outpointHash tx.txHash) ([], m.inputs)
      some ((result, true), { m with txs := Function.update m.txs tx.txHash (some newTx), inputs })

/-! ### `RemoveTransaction` and `TransactionExists` -/

/-- `otherHashes = append(otherHashes[:i], otherHashes[i+1:]...)` as the map sees it: the
elements after `i` move down one place in the backing array the map's slice shares, and the
map's slice keeps its length, so it ends with its last element twice. -/
def shiftDown (otherHashes : List Hash) (i : Nat) : List Hash :=
  otherHashes.eraseIdx i ++ otherHashes.drop (otherHashes.length - 1)

/-- One iteration of `RemoveTransaction`'s loop over the removed transaction's outpoints.
A list of one is deleted whoever it names; in a longer list the loop looks for the
outpoint's hash among the transaction ids. -/
def removeInput (inputs : Hash → Option (List Hash)) (outpoint : OutPoint) :
    Hash → Option (List Hash) :=
  match inputs (outpointHash outpoint) with
  | none => inputs
  | some otherHashes =>
    if 1 < otherHashes.length then
      match otherHashes.indexOf? (outpointHash outpoint) with
      | some i => Function.update inputs (outpointHash outpoint) (some (shiftDown otherHashes i))
      | none => inputs
    else Function.update inputs (outpointHash outpoint) none

/-- `RemoveTransaction(hash)`: whether `hash` was tracked. -/
def removeTransaction (m : MemPool) (hash : Hash) : Option (Bool × MemPool) :=
  m.withLock fun m =>
    match m.txs hash with
    | some tx => some (true, { m with
        inputs := tx.outPoints.foldl (removeInput outpointHash) m.inputs,
        txs := Function.update m.txs hash none })
    | none => some (false, m)

/-- `TransactionExists(hash)`. -/
def transactionExists (m : MemPool) (hash : Hash) : Option (Bool × MemPool) :=
  m.withLock fun m => some ((m.txs hash).isSome, m)

/-! ### `Conflicting` -/

/-- One `hash` of an index list in `Conflicting`: `result = append(result, hash)`, then
`memPool.RemoveTransaction(hash)` with the mutex still held. -/
def evict (acc : List Hash × MemPool) (hash : Hash) : Option (List Hash × MemPool) :=
  (acc.2.removeTransaction outpointHash hash).map fun r => (acc.1 ++ [hash], r.2)

/-- One input of the transaction `Conflicting` checks. -/
def conflictingInput (acc : List Hash × MemPool) (input : TxIn) : Option (List Hash × MemPool) :=
  match acc.2.inputs (outpointHash input.previousOutPoint) with
  | some list => list.foldlM (evict outpointHash) acc
  | none => some acc

/-- `Conflicting(tx)`: the tracked transactions spending an outpoint `tx` spends, each
evicted as it is found. -/
def conflicting (m : MemPool) (tx : MsgTx) : Option (List Hash × MemPool) :=
  m.withLock fun m => tx.txIn.foldlM (conflictingInput outpointHash) ([], m)

/-! ### Running a method on a free mutex -/

variable {m : MemPool}

@[simp] theorem lock_of_free (h : m.mutex = false) : m.lock = some { m with mutex := true } := by
  simp [lock, h]

@[simp] theorem lock_of_held (h : m.mutex = true) : m.lock = none := by simp [lock, h]

@[simp] theorem unlock_txs : m.unlock.txs = m.txs := rfl
@[simp] theorem unlock_inputs : m.unlock.inputs = m.inputs := rfl
@[simp] theorem unlock_requests : m.unlock.requests = m.requests := rfl
@[simp] theorem unlock_mutex : m.unlock.mutex = false := rfl

/-- A method called while the mutex is held never returns. -/
@[simp] theorem withLock_of_held (h : m.mutex = true) (body : MemPool → Option (α × MemPool)) :
    m.withLock body = none := by
  simp [withLock, h]

theorem withLock_of_free (h : m.mutex = false) (body : MemPool → Option (α × MemPool)) :
    m.withLock body = (body { m with mutex := true }).map fun r => (r.1, r.2.unlock) := by
  simp only [withLock, lock_of_free h, Option.bind_eq_bind, Option.some_bind]
  cases body { m with mutex := true } <;> rfl

end MemPool

end SmartContract
