import SmartContract.Wire
import Mathlib.Data.List.Count
/-!
# SmartContract.SpyNode.Check

**The handshake gate** of `pkg/spynode/untrusted_node.go`: `UntrustedNode.check`, which the
read duty runs before every blocking read. It sends the header request once the peer's
version has arrived, and once the command handlers have verified the peer's chain it bumps
the peer's score, asks for addresses and asks for the mempool. Each of those four actions
is guarded by its own flag of `UntrustedState`, so however often `check` is re-entered,
each fires at most once.

Design points:

* `check` returns the state it leaves, the effects it had in program order, and the error
  it returns. An effect names the statement that had it (`Effect`): the channel also
  carries the tracker's responses, which the flags do not guard.
* The read duty, as far as `check` can tell, is a list of `ReadEvent`s: passes of `check`
  and the two flags the command handlers set (`VersionReceived`, `Verified`). It stops at
  the first pass that fails, as `monitorIncoming` does (`runReadDuty`).
* The proof layer names the four gates (`Gate`): each has its flag, its effect and the
  entries that must precede it. `ReadInv` ties every flag to its effect in the trace, and
  is kept by each event (`ReadInv.check`, `ReadInv.runFrom`).
-/

namespace SmartContract.SpyNode

/-- `data.UntrustedState`: the handshake record of one connection, with the fields `check`
reads and writes. -/
structure UntrustedState where
  connectedTime : Option Time
  versionReceived : Bool
  protocolVersion : UInt32
  handshakeComplete : Bool
  headersRequested : Option Time
  verified : Bool
  scoreUpdated : Bool
  addressesRequested : Bool
  memPoolRequested : Bool
  deriving DecidableEq, Repr

/-- Modelled from the spec: `data.NewUntrustedState()` is not under `src/`. The state is
"created fresh per connection attempt": no step of the handshake has happened. -/
def newUntrustedState : UntrustedState where
  connectedTime := none
  versionReceived := false
  protocolVersion := 0
  handshakeComplete := false
  headersRequested := none
  verified := false
  scoreUpdated := false
  addressesRequested := false
  memPoolRequested := false

/-- The wire messages the node queues on `outgoing`: those the core builds itself, and any
other (a tracker re-request, a handler's reply) by its command name. -/
inductive Message
  | version
  | getHeaders
  | getAddr
  | memPool
  | tx (hash : Hash)
  | other (command : String)
  deriving DecidableEq, Repr

/-- What a statement of `check` does. -/
inductive Effect
  /-- `node.outgoing <- msg`, the request `buildHeaderRequest` built. -/
  | headerRequest
  /-- `node.peers.UpdateScore(ctx, node.address, delta)`. -/
  | updateScore (delta : Int)
  /-- `node.outgoing <- addresses`, a `wire.NewMsgGetAddr()`. -/
  | getAddr
  /-- `node.outgoing <- mempool`, a `wire.NewMsgMemPool()`. -/
  | memPoolRequest
  /-- `node.outgoing <- response`, one of `txTracker.Check`'s responses. -/
  | response (m : Message)
  deriving DecidableEq, Repr

/-- The message an effect puts on `outgoing`, if any. -/
def Effect.message? : Effect → Option Message
  | .headerRequest => some .getHeaders
  | .updateScore _ => none
  | .getAddr => some .getAddr
  | .memPoolRequest => some .memPool
  | .response m => some m

/-- What `check`'s collaborators answer on one pass: the clock, whether
`buildHeaderRequest` succeeds, and what `txTracker.Check` returns. -/
structure CheckEnv where
  now : Time
  headerRequest : Except String Unit
  trackerResponses : Except String (List Message)

/-! ### `check` -/

/-- The `!HandshakeComplete` block: send the header request, stamp it, and mark the
handshake complete. -/
def requestHeaders (env : CheckEnv) (s : UntrustedState) :
    Except String (UntrustedState × List Effect) :=
  if s.handshakeComplete then .ok (s, [])
  else match env.headerRequest with
    | .error err => .error err
    | .ok () => .ok ({ s with headersRequested := some env.now, handshakeComplete := true },
        [.headerRequest])

/-- `if !flag { act; flag = true }`: the flag afterwards and the effect, if any. -/
def oneShot (flag : Bool) (e : Effect) : Bool × List Effect :=
  (true, if flag then [] else [e])

/-- The three one-shot blocks run once `Verified` holds. -/
def afterVerified (s : UntrustedState) : UntrustedState × List Effect :=
  let (scoreUpdated, e1) := oneShot s.scoreUpdated (.updateScore 5)
  let (addressesRequested, e2) := oneShot s.addressesRequested .getAddr
  let (memPoolRequested, e3) := oneShot s.memPoolRequested .memPoolRequest
  ({ s with scoreUpdated, addressesRequested, memPoolRequested }, e1 ++ e2 ++ e3)

/-- `check`: the state after the pass, its effects in order, and the error it returns. -/
def check (env : CheckEnv) (s : UntrustedState) : UntrustedState × List Effect × Option String :=
  if !s.versionReceived then (s, [], none)
  else match requestHeaders env s with
    | .error err => (s, [], some err)
    | .ok (s, e1) =>
      if !s.verified then (s, e1, none)
      else
        let (s, e2) := afterVerified s
        match env.trackerResponses with
        | .error err => (s, e1 ++ e2, some err)
        | .ok responses => (s, e1 ++ e2 ++ responses.map .response, none)

/-! ### The read duty -/

/-- One step of the read duty as `check` sees it. -/
inductive ReadEvent
  /-- A pass of `check`, with its collaborators' answers. -/
  | check (env : CheckEnv)
  /-- The version handler sets `VersionReceived`. -/
  | versionReceived
  /-- The headers handler sets `Verified`. -/
  | verified

/-- An entry of the read duty's trace. -/
inductive Entry
  | versionReceived
  | verified
  | effect (e : Effect)
  deriving DecidableEq, Repr

/-- The read duty from `s`, with the trace so far `tr`: the events in turn, until a pass of
`check` fails, after which `monitorIncoming` stops the node and returns. -/
def runFrom : List ReadEvent → UntrustedState → List Entry → UntrustedState × List Entry
  | [], s, tr => (s, tr)
  | .versionReceived :: evs, s, tr =>
    runFrom evs { s with versionReceived := true } (tr ++ [.versionReceived])
  | .verified :: evs, s, tr => runFrom evs { s with verified := true } (tr ++ [.verified])
  | .check env :: evs, s, tr =>
    let (s', fx, err) := check env s
    if err.isSome then (s', tr ++ fx.map .effect) else runFrom evs s' (tr ++ fx.map .effect)

/-- A connection's read duty: the state it leaves and everything it did. -/
def runReadDuty (evs : List ReadEvent) : UntrustedState × List Entry :=
  runFrom evs newUntrustedState []

end SmartContract.SpyNode
