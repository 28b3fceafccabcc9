import SmartContract.SpyNode.Gates
/-!
# SmartContract.SpyNode.Node

**The untrusted node as a concurrent system**: `UntrustedNode.Run`, its three duties
(`monitorIncoming`, `monitorRequestTimeouts`, `sendOutgoing`), and any number of external
`Stop()` and `BroadcastTx()` calls, interleaved in every order.

Design points:

* A step is one atomic action of one goroutine (`Action`), applied by `Node.step`; `none`
  when it is not enabled (its goroutine is elsewhere, or it blocks). The inputs the
  environment chooses (whether the dial succeeds, what the peer sends, what the handlers
  and the tracker answer, whether a timeout fired) are arguments of the action.
* Code under `node.mutex` (`Run`'s first block, `Stop`, `BroadcastTx`) is one step. The
  duties' channel sends take no lock, so each is a step of its own (`IncomingPc.sending`).
  A send under the mutex that blocks on a full channel leaves its action disabled; in Go it
  would also hold `Stop` and `BroadcastTx` up, which the model does not.
* A pass of `check` is one step that applies all its flag writes and its `UpdateScore(+5)`,
  followed by one step per message it queues. In Go the header request is sent before its
  flags are written and before the `+5`. Only the read duty reads those flags (the timeout
  duty's `CheckTimeouts` verdict is an argument of its step), so the order shows only when
  a send of the pass blocks or panics, and then the model has already applied the `+5`
  that Go would not have reached.
* `outgoing` is a Go channel of capacity 100: a send blocks while it is full, and both a
  send on a closed channel and a second `close` panic (`Panic`). A panic ends the process:
  no step is enabled after it.
* `sendOutgoing` is not under `src/`; it is modelled from the spec: it "drains the
  outgoing channel to the transport until the channel is closed".
* `readTrace` is a history variable: what the read duty did, in the terms of
  `SmartContract.SpyNode.Check`, so that the read-duty invariant can be carried over.
-/

namespace SmartContract.SpyNode

/-- `outgoing`'s capacity: `make(chan wire.Message, 100)`. -/
def outgoingCapacity : Nat := 100

/-- A Go runtime panic on a channel. -/
inductive Panic
  /-- "send on closed channel" -/
  | sendOnClosed
  /-- "close of closed channel" -/
  | closeOfClosed
  deriving DecidableEq, Repr

/-- A buffered Go channel of messages. -/
structure Chan where
  buffer : List Message
  closed : Bool
  deriving DecidableEq, Repr

/-- `ch <- m`; `none` while it blocks, the channel open and its buffer full. -/
def Chan.send (ch : Chan) (m : Message) : Option (Except Panic Chan) :=
  if ch.closed then some (.error .sendOnClosed)
  else if ch.buffer.length < outgoingCapacity then some (.ok { ch with buffer := ch.buffer ++ [m] })
  else none

/-- `close(ch)`. -/
def Chan.close (ch : Chan) : Except Panic Chan :=
  if ch.closed then .error .closeOfClosed else .ok { ch with closed := true }

/-- Where `Run` is. -/
inductive RunPc
  | idle
  /-- `wg.Wait()` for the three duties. -/
  | waiting
  | done
  deriving DecidableEq, Repr

/-- Where the read duty `monitorIncoming` is. -/
inductive IncomingPc
  | idle
  | check
  | read
  | handle
  /-- Queueing `msgs` on `outgoing`, then going on at `next`. -/
  | sending (msgs : List Message) (next : IncomingPc)
  /-- About to call `Stop()` and leave the loop. -/
  | stop
  | done
  deriving DecidableEq, Repr

/-- Where the timeout duty `monitorRequestTimeouts` is. -/
inductive TimeoutPc
  | idle
  | sleep
  | checkTimeouts
  | done
  deriving DecidableEq, Repr

/-- Where the write duty `sendOutgoing` is. -/
inductive SenderPc
  | idle
  | draining
  | done
  deriving DecidableEq, Repr

/-- An `UntrustedNode` and its goroutines. `scores` lists the `UpdateScore` deltas applied
to this peer, in order; `connected` is `conn != nil`. -/
structure Node where
  state : UntrustedState
  outgoing : Chan
  outgoingOpen : Bool
  stopping : Bool
  active : Bool
  connected : Bool
  scores : List Int
  run : RunPc
  incoming : IncomingPc
  timeouts : TimeoutPc
  sender : SenderPc
  panic : Option Panic
  readTrace : List Entry
  deriving DecidableEq, Repr

/-- `NewUntrustedNode`: a fresh state, an open empty channel, nothing running. -/
def newUntrustedNode : Node where
  state := newUntrustedState
  outgoing := ⟨[], false⟩
  outgoingOpen := true
  stopping := false
  active := true
  connected := false
  scores := []
  run := .idle
  incoming := .idle
  timeouts := .idle
  sender := .idle
  panic := none
  readTrace := []

namespace Node

/-- `node.outgoing <- m`; `none` while it blocks. -/
def send (n : Node) (m : Message) : Option Node :=
  (n.outgoing.send m).map fun
    | .ok ch => { n with outgoing := ch }
    | .error p => { n with panic := some p }

/-- `Stop()`: set `stopping`, close `outgoing` if `outgoingOpen`, and disconnect. -/
def stop (n : Node) : Node :=
  let n := { n with stopping := true }
  let n := if n.outgoingOpen then
      match n.outgoing.close with
      | .ok ch => { n with outgoing := ch, outgoingOpen := false }
      | .error p => { n with panic := some p }
    else n
  { n with connected := false }

end Node

/-- What the read duty's blocking `wire.ReadMessage` returns. -/
inductive ReadOutcome
  | message
  | eof
  | error
  deriving DecidableEq, Repr

/-- What `handleMessage` does with a message: the handshake flags its handler sets and
the replies it queues, or an error. -/
inductive HandleOutcome
  | ok (versionReceived verified : Bool) (replies : List Message)
  | error
  deriving DecidableEq, Repr

/-- One atomic action of one goroutine. -/
inductive Action
  /-- `Run`'s locked block: connect (a dial that fails, or one that connects at a time),
  queue the version message, start the duties. -/
  | runStart (connectedAt : Option Time)
  /-- `Run` after `wg.Wait()`. -/
  | runJoin
  /-- The read duty: a pass of `check`. -/
  | check (env : CheckEnv)
  /-- The read duty: queue its next pending message. -/
  | send
  /-- The read duty: `wire.ReadMessage`. -/
  | read (outcome : ReadOutcome)
  /-- The read duty: `handleMessage`. -/
  | handle (outcome : HandleOutcome)
  /-- The read duty: `node.Stop()` before leaving the loop. -/
  | incomingStop
  /-- The timeout duty: `sleepUntilStop`. -/
  | sleep
  /-- The timeout duty: `node.state.CheckTimeouts()` and what follows it. -/
  | checkTimeouts (timedOut : Bool)
  /-- The write duty: one receive from `outgoing`. -/
  | drain
  /-- An external `Stop()`. -/
  | stop
  /-- An external `BroadcastTx(tx)`. -/
  | broadcastTx (hash : Hash)

/-- The score update an effect of `check` applies, if any. -/
def Effect.scoreDelta? : Effect → Option Int
  | .updateScore delta => some delta
  | _ => none

/-- The read-duty trace entries of a handler outcome. -/
def handledEntries (versionReceived verified : Bool) : List Entry :=
  (if versionReceived then [.versionReceived] else []) ++ (if verified then [.verified] else [])

namespace Node

/-- One action on a live process. -/
def stepLive (n : Node) : Action → Option Node
  | .runStart connectedAt =>
    if n.run ≠ .idle then none
    else match connectedAt with
      | none => some { n with
          scores := n.scores ++ [-1]
          active := false
          run := .done
          connected := false }
      | some t =>
        (Node.send { n with connected := true, state := { n.state with connectedTime := some t } }
          .version).map fun (n : Node) =>
            { n with run := .waiting, incoming := .check, timeouts := .sleep, sender := .draining }
  | .runJoin =>
    if n.run = .waiting ∧ n.incoming = .done ∧ n.timeouts = .done ∧ n.sender = .done then
      some { n with active := false, run := .done }
    else none
  | .check env =>
    if n.incoming ≠ .check then none
    else
      let (s, fx, err) := check env n.state
      some { n with
        state := s
        scores := n.scores ++ fx.filterMap Effect.scoreDelta?
        readTrace := n.readTrace ++ fx.map .effect
        incoming := .sending (fx.filterMap Effect.message?) (if err.isSome then .stop else .read) }
  | .send =>
    match n.incoming with
    | .sending [] next => some { n with incoming := next }
    | .sending (m :: ms) next =>
      (n.send m).map fun (n : Node) => { n with incoming := .sending ms next }
    | _ => none
  | .read outcome =>
    if n.incoming ≠ .read then none
    else match outcome with
      | .message => some { n with incoming := .handle }
      | .eof | .error => some { n with incoming := .stop }
  | .handle outcome =>
    if n.incoming ≠ .handle then none
    else match outcome with
      | .ok versionReceived verified replies => some { n with
          state := { n.state with
            versionReceived := n.state.versionReceived || versionReceived
            verified := n.state.verified || verified }
          readTrace := n.readTrace ++ handledEntries versionReceived verified
          incoming := .sending replies .check }
      | .error => some { n with scores := n.scores ++ [-1], incoming := .stop }
  | .incomingStop => if n.incoming ≠ .stop then none else some { n.stop with incoming := .done }
  | .sleep => if n.timeouts ≠ .sleep then none else some { n with timeouts := .checkTimeouts }
  | .checkTimeouts timedOut =>
    if n.timeouts ≠ .checkTimeouts then none
    else if timedOut then some { { n with scores := n.scores ++ [-1] }.stop with timeouts := .done }
    else if n.stopping then some { n with timeouts := .done }
    else some { n with timeouts := .sleep }
  | .drain =>
    if n.sender ≠ .draining then none
    else match n.outgoing.buffer with
      | _ :: ms => some { n with outgoing := { n.outgoing with buffer := ms } }
      | [] => if n.outgoing.closed then some { n with sender := .done } else none
  | .stop => some n.stop
  | .broadcastTx hash => if n.outgoingOpen then n.send (.tx hash) else some n

/-- One action; nothing runs once the process has panicked. -/
def step (n : Node) (a : Action) : Option Node :=
  if n.panic.isSome then none else n.stepLive a

end Node

/-- The nodes that `NewUntrustedNode` reaches by some interleaving. -/
inductive Reachable : Node → Prop
  | new : Reachable newUntrustedNode
  | step {n n' : Node} {a : Action} : Reachable n → n.step a = some n' → Reachable n'

/-- Running actions in order; `none` as soon as one is not enabled. -/
def runActions : List Action → Node → Option Node
  | [], n => some n
  | a :: as, n => (n.step a).bind (runActions as)

theorem Reachable.runActions {n n' : Node} (hn : Reachable n) :
    ∀ {as : List Action}, runActions as n = some n' → Reachable n'
  | [], h => by cases h; exact hn
  | a :: as, h => by
    simp only [SpyNode.runActions, Option.bind_eq_some] at h
    obtain ⟨n1, h1, h2⟩ := h
    exact (hn.step h1).runActions h2

end SmartContract.SpyNode
