import Mathlib.Algebra.Order.Field.Basic
import Mathlib.Algebra.Order.Field.Rat
import Mathlib.Data.Rat.Cast.Order
import Mathlib.Tactic.NormNum.Basic
/-!
# SmartContract.Wire

The **wire and runtime types** the spynode core reads: `chainhash.Hash`, the parts of
`wire.MsgTx` that the mempool and the inspector look at, and Go's monotonic clock.

Design points:

* A hash is 32 bytes, `BitVec 256`; only its equality is ever used.
* `TxHash()` is the double SHA-256 of the serialised transaction. Hashing is outside this
  development, so a transaction carries its id as a field (`MsgTx.txHash`); every statement
  about all transactions therefore covers every real one.
* `OutPoint.OutpointHash()` is not under `src/` either. The mempool keys its input index
  by it, and the code compares that key with transaction ids, so it is kept as an explicit
  function `outpointHash : OutPoint → Hash` that the mempool operations take as argument.
* `time.Time` is its monotonic reading in nanoseconds, and a `time.Duration` an `Int`
  count of nanoseconds. `Sub` saturates at the bounds of `int64`, as Go's does.
-/

namespace SmartContract

/-- `chainhash.Hash`: 32 bytes. -/
abbrev Hash := BitVec 256

/-- `wire.OutPoint`: the output `index` of the transaction `hash`. -/
structure OutPoint where
  hash : Hash
  index : UInt32
  deriving DecidableEq, Repr

/-- `wire.TxIn`, reduced to the outpoint it spends (no modelled function reads the
signature script or the sequence number). -/
structure TxIn where
  previousOutPoint : OutPoint
  deriving DecidableEq, Repr

/-- `wire.TxOut`, reduced to its locking script (no modelled function reads the value). -/
structure TxOut where
  pkScript : List UInt8
  deriving DecidableEq, Repr

/-- `wire.MsgTx`, with the id `TxHash()` computes carried alongside its inputs and outputs. -/
structure MsgTx where
  txHash : Hash
  txIn : List TxIn
  txOut : List TxOut
  deriving DecidableEq, Repr

/-! ### Go's clock -/

/-- The largest and smallest `time.Duration` (an `int64` count of nanoseconds). -/
def maxDuration : Int := 2 ^ 63 - 1
def minDuration : Int := -2 ^ 63

/-- A `time.Time` read from `time.Now()`, by its monotonic reading in nanoseconds. -/
structure Time where
  mono : Int
  deriving DecidableEq, Repr

/-- `t.Sub(u)`: the difference of the monotonic readings, saturated to a `Duration`. -/
def Time.sub (t u : Time) : Int := max minDuration (min maxDuration (t.mono - u.mono))

/-- `time.Second`. -/
def second : Int := 1000000000

/-- `d.Seconds()`. Go computes `float64(d / Second) + float64(d % Second) / 1e9`; the two
roundings never carry the value across an integer, so comparing it with an integer, the
only use here, agrees with comparing the exact quotient. -/
def seconds (d : Int) : ℚ := d / second

/-- `d.Seconds() > n` is `d > n * Second`. -/
theorem lt_seconds_iff (d n : Int) : (n : ℚ) < seconds d ↔ n * second < d := by
  have hs : (0 : ℚ) < (second : ℚ) := by norm_num [second]
  rw [seconds, lt_div_iff₀ hs]
  norm_cast

/-- Away from the saturation bounds `Sub` is the plain difference: for the comparisons the
mempool makes, saturation never matters. -/
theorem Time.lt_sub_iff {t u : Time} {c : Int} (hlo : minDuration ≤ c) (hhi : c < maxDuration) :
    c < t.sub u ↔ c < t.mono - u.mono := by
  simp only [Time.sub, max_def, min_def, minDuration, maxDuration] at *
  split_ifs <;> omega

end SmartContract
