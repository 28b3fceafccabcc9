import SmartContract.Vote.Float64
import Mathlib.Data.List.Sort
/-!
# SmartContract.Vote.Systems

**The voting systems** of `internal/vote/systems.go`: `NewVotingSystem`,
`GetVotingSystemCode` and the `Winners` of the six systems.

Design points:

* A Go map is its entries in the order a `range` visits them (`GoMap`), with its keys
  distinct as a field. Go picks a fresh order for every `range`; the loops that sum a map
  do not depend on it (a `uint64` sum wraps the same in every order), so one order per map
  stands for every run, and a statement over all `GoMap`s is over all orders.
* Counts are `UInt64`, so `totalValue` wraps as Go's does; conversions and products are
  the rounded `float64` operations of `SmartContract.Vote.Float64`.
* The four threshold systems are two pairs of near-copies. `MajorityVote` and
  `SuperMajority` take the first option over the threshold and stop
  (`relativeWinners`); `AbsoluteMajority` and `AbsoluteSuperMajority` first require a
  turnout and then take every option over it (`absoluteWinners`). Within a pair they differ
  only in the factor (`0.5` or `0.67`) and in the comparison (`>` or `>=`, and the turnout
  guard `<=` or `<`), the parameters `factor` and `strict`.
* `ResultMaximum` is not under `src/`; it is modelled by its name, the largest count (0 for
  an empty result).
-/

namespace SmartContract.Voting

/-- A Go map, by its entries in iteration order; a map has each key once. -/
structure GoMap (κ ν : Type) where
  entries : List (κ × ν)
  nodup : (entries.map Prod.fst).Nodup

/-- `m[k]`, with its `ok`. -/
def GoMap.lookup {κ ν : Type} [DecidableEq κ] (m : GoMap κ ν) (k : κ) : Option ν :=
  m.entries.lookup k

/-- `state.Asset`, with what the vote code reads: its voting system and its number of
holdings. -/
structure Asset where
  votingSystem : String
  holdings : Nat

/-- `state.Contract`, with what the vote code reads. -/
structure Contract where
  votingSystem : String
  assets : GoMap String Asset

/-- `state.Vote`, with what the vote code reads: the asset voted on (empty for a contract
vote), the number of ballots, and `*Result`. -/
structure Vote where
  assetID : String
  ballots : Nat
  result : GoMap UInt8 UInt64

/-- `base.sort`: the winners in increasing order. -/
def sortOptions (b : List UInt8) : List UInt8 := b.insertionSort (· ≤ ·)

/-- `for _, v := range result { totalValue += v }`, in `uint64`. -/
def totalValue (result : GoMap UInt8 UInt64) : UInt64 :=
  result.entries.foldl (fun total kv => total + kv.2) 0

/-- `float64(v)` for a count. -/
def countToFloat64 (v : UInt64) : ℚ := toFloat64 v.toNat

/-- `minimum := float64(totalValue) * factor`. -/
def minimumValue (factor : ℚ) (result : GoMap UInt8 UInt64) : ℚ :=
  round53 (countToFloat64 (totalValue result) * factor)

/-- An option's count clears the minimum: `float64(v) > minimum` (`strict`) or `>=`. -/
def clears (strict : Bool) (minimum : ℚ) (v : UInt64) : Bool :=
  if strict then decide (minimum < countToFloat64 v) else decide (minimum ≤ countToFloat64 v)

/-! ### The relative systems: the first option over the threshold -/

/-- `MajorityVote.Winners` and `SuperMajority.Winners`: the first option, in iteration
order, whose count clears `factor` times the total; the loop `break`s there. -/
def relativeWinners (factor : ℚ) (strict : Bool) (v : Vote) : List UInt8 :=
  sortOptions ((v.result.entries.find? fun kv => clears strict (minimumValue factor v.result) kv.2).map
    Prod.fst).toList

/-- `MajorityVote.Winners`: `float64(v) > float64(totalValue) * 0.5`. -/
def MajorityVote.winners (v : Vote) : List UInt8 := relativeWinners (1 / 2) true v

/-- `SuperMajority.Winners`: `float64(val) >= float64(totalValue) * 0.67`. -/
def SuperMajority.winners (v : Vote) : List UInt8 := relativeWinners c067 false v

/-! ### The absolute systems: a turnout, then every option over the threshold -/

/-- The number of holders who could vote: those of every asset for a contract vote, those
of the voted asset otherwise. -/
def tokenHolderCount (c : Contract) (v : Vote) : Except String Nat :=
  if v.assetID.length = 0 then .ok (c.assets.entries.foldl (fun n a => n + a.2.holdings) 0)
  else match c.assets.lookup v.assetID with
    | none => .error "Asset not found"
    | some a => .ok a.holdings

/-- `AbsoluteMajority.Winners` and `AbsoluteSuperMajority.Winners`: no winner unless the
ballots are more than (`strict`) or at least `factor` of the holders; then every option
whose count clears `factor` times the total. -/
def absoluteWinners (factor : ℚ) (strict : Bool) (c : Contract) (v : Vote) :
    Except String (List UInt8) := do
  let holders ← tokenHolderCount c v
  if (Float64.div (toFloat64 v.ballots) (toFloat64 holders)).below strict factor then
    return []
  return sortOptions ((v.result.entries.filter fun kv =>
    clears strict (minimumValue factor v.result) kv.2).map Prod.fst)

/-- `AbsoluteMajority.Winners`: turnout `> 0.5`, then `float64(val) > minimum`. -/
def AbsoluteMajority.winners (c : Contract) (v : Vote) : Except String (List UInt8) :=
  absoluteWinners (1 / 2) true c v

/-- `AbsoluteSuperMajority.Winners`: turnout `>= 0.67`, then `float64(val) >= minimum`. -/
def AbsoluteSuperMajority.winners (c : Contract) (v : Vote) : Except String (List UInt8) :=
  absoluteWinners c067 false c v

/-! ### Plurality, no voting rights, and the dispatch -/

/-- One turn of `ResultMaximum`'s loop: keep the larger count. `vote.ResultMaximum` is not
under `src/`; it is modelled from its name and its use in `PluralityVotingSystem.Winners`,
which keeps the options whose count equals it. -/
def maxStep (m : UInt64) (kv : UInt8 × UInt64) : UInt64 := if m < kv.2 then kv.2 else m

/-- `ResultMaximum`: the largest count, `0` for an empty result. Not under `src/` (see
`maxStep`). -/
def resultMaximum (result : GoMap UInt8 UInt64) : UInt64 := result.entries.foldl maxStep 0

/-- `PluralityVotingSystem.Winners`: every option with the largest count. -/
def PluralityVotingSystem.winners (v : Vote) : List UInt8 :=
  sortOptions ((v.result.entries.filter fun kv => kv.2 = resultMaximum v.result).map Prod.fst)

/-- The six systems of `votingSystems`. -/
inductive VotingSystem
  | majorityVote
  | absoluteMajority
  | pluralityVotingSystem
  | superMajority
  | absoluteSuperMajority
  | noVotingRights
  deriving DecidableEq, Repr

/-- `VotingSystem.Winners`. -/
def VotingSystem.winners : VotingSystem → Contract → Vote → Except String (List UInt8)
  | .majorityVote, _, v => .ok (MajorityVote.winners v)
  | .absoluteMajority, c, v => AbsoluteMajority.winners c v
  | .pluralityVotingSystem, _, v => .ok (PluralityVotingSystem.winners v)
  | .superMajority, _, v => .ok (SuperMajority.winners v)
  | .absoluteSuperMajority, c, v => AbsoluteSuperMajority.winners c v
  | .noVotingRights, _, _ => .ok []

/-- `NewVotingSystem`: the system of a code of `votingSystems`. -/
def newVotingSystem (code : String) : Except String VotingSystem :=
  if code = "M" then .ok .majorityVote
  else if code = "A" then .ok .absoluteMajority
  else if code = "P" then .ok .pluralityVotingSystem
  else if code = "S" then .ok .superMajority
  else if code = "T" then .ok .absoluteSuperMajority
  else if code = "N" then .ok .noVotingRights
  else .error ("No voting system found for : " ++ code)

/-- `GetVotingSystemCode`: the voted asset's system if it names one, the contract's
otherwise. -/
def getVotingSystemCode (c : Contract) (v : Vote) : Except String String :=
  if v.assetID.length = 0 then .ok c.votingSystem
  else match c.assets.lookup v.assetID with
    | none => .error "Asset not found"
    | some asset => if asset.votingSystem.length > 0 then .ok asset.votingSystem else .ok c.votingSystem

/-- `NewVotingSystem(code).Winners(c, v)`. -/
def winnersFor (code : String) (c : Contract) (v : Vote) : Except String (List UInt8) := do
  let vs ← newVotingSystem code
  vs.winners c v

end SmartContract.Voting
