import SmartContract.SpyNode.Node
/-!
# SmartContract.SpyNode.Interleavings

**What holds of the node in every interleaving, and what does not.**

* `Stop` closes `outgoing` only under `node.mutex` and only while `outgoingOpen`, which it
  clears in the same step: in every reachable node the channel is closed exactly when
  `outgoingOpen` is false, so it is never closed twice (`Reachable.nodeInv`).
* `BroadcastTx` reads `outgoingOpen` under the same mutex, and `outgoingOpen` is cleared
  exactly when `Stop` has run (`Reachable.outgoingOpen_eq`): before `Stop` it queues the
  transaction, after it it refuses it, and it never panics (`Reachable.broadcastTx_eq`).
* The node's read duty refines the sequential one of `SmartContract.SpyNode.Check`: in
  every reachable node, the handshake state and the read trace are those of a run of
  `runReadDuty` (`RefinesDuty`), whatever the other goroutines did in between. So the
  one-shot gates of `SmartContract.SpyNode.Gates` keep their guarantees under every
  interleaving (`NodeInv.read`). In particular the peer's score is raised at most once, and
  exactly when `ScoreUpdated` is set (`NodeInv.score_raised_once`).
* `Run`'s version message, `check`'s requests and the handlers' replies do not look at
  `outgoingOpen`: a `Stop` before them makes them send on the closed channel
  (`send_on_closed_reachable`).

## Proof shape

The abstraction (`Node.readView`) forgets `ConnectedTime`, which `Run` sets and `check`
never reads (`check_connectedTime`). `NodeInv` gathers the channel facts and the
refinement. A pass of `check` and a handler's flags extend the run (`RefinesDuty.extend`,
in `NodeInv.check` and `NodeInv.handle`); every other action leaves the read duty's state
and trace alone and keeps `NodeInv` by one frame lemma (`NodeInv.frame`). `NodeInv.step` is
the one case split over the actions, and `Reachable.nodeInv` its induction. What an action
does to `outgoingOpen` and `stopping` is said once (`Node.step_flags`), and the same
induction gives `Reachable.outgoingOpen_eq`.
-/

namespace SmartContract.SpyNode

variable {n n' : Node} {m : Message} {evs : List ReadEvent}

/-! ### What `send` and `stop` do -/

/-- A send appends to an open channel and panics on a closed one. -/
theorem Node.send_cases (h : n.send m = some n') :
    n.outgoing.closed = false ∧
        n' = { n with outgoing := { n.outgoing with buffer := n.outgoing.buffer ++ [m] } } ∨
      n.outgoing.closed = true ∧ n' = { n with panic := some .sendOnClosed } := by
  unfold Node.send Chan.send at h
  split_ifs at h with hc <;> simp only [Option.map_none', Option.map_some', Option.some.injEq,
    reduceCtorEq] at h <;> subst h <;> simp [hc]

/-- `Stop` on a node whose channel is closed exactly when `outgoingOpen` is false: the
channel ends closed, and nothing else but `stopping` and `conn` changes. -/
theorem Node.stop_eq (hinv : n.outgoing.closed = !n.outgoingOpen) :
    n.stop = { n with
      stopping := true
      outgoing := { n.outgoing with closed := true }
      outgoingOpen := false
      connected := false } := by
  unfold Node.stop
  cases ho : n.outgoingOpen
  · obtain ⟨_, ⟨_, _⟩⟩ := n
    simp_all
  · simp_all [Chan.close]

/-! ### The read duty inside the node -/

/-- `check` neither reads nor writes `ConnectedTime`. -/
theorem check_connectedTime (env : CheckEnv) (s : UntrustedState) (c : Option Time) :
    check env { s with connectedTime := c } =
      ({ (check env s).1 with connectedTime := c }, (check env s).2) := by
  unfold check requestHeaders afterVerified oneShot
  obtain ⟨_, vr, _, hc, _, v, _, _, _⟩ := s
  cases vr <;> cases hc <;> cases v <;> cases env.headerRequest <;> cases env.trackerResponses <;> rfl

theorem runFrom_check (env : CheckEnv) (more : List ReadEvent) (s : UntrustedState)
    (tr : List Entry) :
    runFrom (.check env :: more) s tr =
      if (check env s).2.2.isSome then ((check env s).1, tr ++ (check env s).2.1.map .effect)
      else runFrom more (check env s).1 (tr ++ (check env s).2.1.map .effect) := rfl

/-- The read-duty events of a handler outcome. -/
def handledEvents (versionReceived verified : Bool) : List ReadEvent :=
  (if versionReceived then [.versionReceived] else []) ++ (if verified then [.verified] else [])

theorem runFrom_handledEvents (versionReceived verified : Bool) (more : List ReadEvent)
    (s : UntrustedState) (tr : List Entry) :
    runFrom (handledEvents versionReceived verified ++ more) s tr =
      runFrom more { s with
          versionReceived := s.versionReceived || versionReceived
          verified := s.verified || verified }
        (tr ++ handledEntries versionReceived verified) := by
  cases versionReceived <;> cases verified <;> simp [handledEvents, handledEntries, runFrom]

/-- A node's handshake state and read trace as the read duty sees them: without
`ConnectedTime`, which `Run` sets before the duty starts. -/
def Node.readView (n : Node) : UntrustedState × List Entry :=
  ({ n.state with connectedTime := none }, n.readTrace)

/-- The read duty has not decided to stop: it will read again. -/
def IncomingPc.live : IncomingPc → Bool
  | .sending _ next => next.live
  | .stop | .done => false
  | _ => true

/-- **The node's read duty refines the sequential one.** What it did so far is the run
`evs` of `runReadDuty`; while it is live, whatever it does next extends that run. -/
structure RefinesDuty (n : Node) (evs : List ReadEvent) : Prop where
  run_eq : runReadDuty evs = n.readView
  cont : n.incoming.live → ∀ more,
    runReadDuty (evs ++ more) = runFrom more n.readView.1 n.readView.2

theorem RefinesDuty.frame (h : RefinesDuty n evs) (hv : n'.readView = n.readView)
    (hl : n'.incoming.live → n.incoming.live) : RefinesDuty n' evs :=
  ⟨hv ▸ h.run_eq, fun h' => hv ▸ h.cont (hl h')⟩

/-- A live node takes the events `es` of the read duty. -/
theorem RefinesDuty.extend (h : RefinesDuty n evs) (hl : n.incoming.live) {es : List ReadEvent}
    (hrun : runFrom es n.readView.1 n.readView.2 = n'.readView)
    (hcont : n'.incoming.live → ∀ more,
      runFrom (es ++ more) n.readView.1 n.readView.2 = runFrom more n'.readView.1 n'.readView.2) :
    RefinesDuty n' (evs ++ es) where
  run_eq := (h.cont hl es).trans hrun
  cont hl' more := by rw [List.append_assoc, h.cont hl, hcont hl']

/-- The `+5` score updates the node applied are the `UpdateScore(+5)` effects in the trace. -/
theorem count_scoreDelta (fx : List Effect) :
    (fx.filterMap Effect.scoreDelta?).count 5 = (fx.map Entry.effect).count (.effect (.updateScore 5)) := by
  induction fx with
  | nil => rfl
  | cons e fx ih => cases e <;> simp [Effect.scoreDelta?, List.count_cons, ih]

/-! ### The node invariant -/

/-- `outgoing` is closed exactly when `outgoingOpen` is false and has not been closed twice;
the read duty has not started before `Run`; the read duty refines the sequential one; and
every `+5` applied to the peer's score is an `UpdateScore(+5)` of the read duty's trace. -/
structure NodeInv (n : Node) : Prop where
  closed_eq : n.outgoing.closed = !n.outgoingOpen
  no_double_close : n.panic ≠ some .closeOfClosed
  idle : n.run = .idle → n.incoming = .idle
  duty : ∃ evs, RefinesDuty n evs
  score_count : n.scores.count 5 = n.readTrace.count (.effect (.updateScore 5))

/-- The read duty's invariant holds of the node: its state and trace are a run's. -/
theorem NodeInv.read (hi : NodeInv n) : ReadInv n.state n.readTrace := by
  obtain ⟨evs, hd⟩ := hi.duty
  have h := readInv_new.runFrom evs
  rw [← runReadDuty, hd.run_eq] at h
  exact h.congr rfl rfl fun g => by cases g <;> rfl

/-- An action that keeps the channel flags, panics at most by a send, and leaves the read
duty's state and trace and the `+5`s alone, moving the read duty only from live to live or to
stopping. -/
theorem NodeInv.frame (hi : NodeInv n) (hc : n'.outgoing.closed = n.outgoing.closed)
    (ho : n'.outgoingOpen = n.outgoingOpen) (hp : n'.panic = n.panic ∨ n'.panic = some .sendOnClosed)
    (hidle : n'.run = .idle → n'.incoming = .idle) (hv : n'.readView = n.readView)
    (hl : n'.incoming.live → n.incoming.live) (hs : n'.scores.count 5 = n.scores.count 5) :
    NodeInv n' :=
  ⟨hc ▸ ho ▸ hi.closed_eq, by rcases hp with hp | hp <;> rw [hp] <;> simp [hi.no_double_close],
    hidle, hi.duty.imp fun _ hd => hd.frame hv hl,
    by rw [hs, hi.score_count, show n'.readTrace = n.readTrace from congrArg Prod.snd hv]⟩

/-- Once the read duty has started, `Run` has. -/
theorem NodeInv.run_ne_idle (hi : NodeInv n) (h : n.incoming ≠ .idle) : n.run ≠ .idle :=
  fun hr => h (hi.idle hr)

theorem NodeInv.send (hi : NodeInv n) (h : n.send m = some n') : NodeInv n' := by
  rcases Node.send_cases h with ⟨-, rfl⟩ | ⟨-, rfl⟩ <;> exact hi.frame rfl rfl (by simp) hi.idle rfl id rfl

theorem NodeInv.stop (hi : NodeInv n) : NodeInv n.stop := by
  rw [Node.stop_eq hi.closed_eq]
  exact ⟨rfl, hi.no_double_close, hi.idle, hi.duty.imp fun _ hd => hd.frame rfl id, hi.score_count⟩

/-- A pass of `check` extends the read duty's run by itself. -/
theorem NodeInv.check (hi : NodeInv n) {env : CheckEnv} (h : n.stepLive (.check env) = some n') :
    NodeInv n' := by
  simp only [Node.stepLive] at h
  split at h
  · cases h
  next hinc =>
  cases h
  obtain ⟨evs, hd⟩ := hi.duty
  have hinc : n.incoming = .check := by simpa using hinc
  refine ⟨hi.closed_eq, hi.no_double_close, (absurd · (hi.run_ne_idle (by simp [hinc]))),
    ⟨evs ++ [.check env], hd.extend (by simp [hinc, IncomingPc.live]) ?_ fun hl more => ?_⟩,
    by simp only [List.count_append, hi.score_count, count_scoreDelta]⟩
  · simp only [Node.readView, runFrom_check, check_connectedTime]
    split <;> rfl
  · have herr : (check env n.state).2.2 = none := by
      simpa [IncomingPc.live, apply_ite IncomingPc.live] using hl
    simp [runFrom_check, Node.readView, check_connectedTime, herr]

/-- A handler's flags extend the read duty's run by the events that set them. -/
theorem NodeInv.handle (hi : NodeInv n) {outcome : HandleOutcome}
    (h : n.stepLive (.handle outcome) = some n') : NodeInv n' := by
  simp only [Node.stepLive] at h
  split_ifs at h with hinc
  have hinc : n.incoming = .handle := by simpa using hinc
  have hidle := hi.run_ne_idle (by simp [hinc])
  split at h <;> cases h
  · next versionReceived verified replies =>
    obtain ⟨evs, hd⟩ := hi.duty
    refine ⟨hi.closed_eq, hi.no_double_close, fun hr => absurd hr hidle,
      ⟨evs ++ handledEvents versionReceived verified, hd.extend (by simp [hinc, IncomingPc.live])
        ?_ fun _ more => runFrom_handledEvents versionReceived verified more _ _⟩,
      by cases versionReceived <;> cases verified <;> simpa [handledEntries] using hi.score_count⟩
    rw [← List.append_nil (handledEvents versionReceived verified)]
    exact runFrom_handledEvents versionReceived verified [] _ _
  · exact hi.frame rfl rfl (.inl rfl) (fun hr => absurd hr hidle) rfl
      (fun _ => by simp [hinc, IncomingPc.live]) (by simp)

/-- **Step lemma.** Every action keeps the invariant. -/
theorem NodeInv.step (hi : NodeInv n) {a : Action} (h : n.step a = some n') : NodeInv n' := by
  unfold Node.step at h
  split_ifs at h
  cases a with
  | check env => exact hi.check h
  | handle outcome => exact hi.handle h
  | runStart connectedAt =>
    simp only [Node.stepLive] at h
    split_ifs at h with hrun
    have hrun : n.run = .idle := by simpa using hrun
    split at h
    · cases h; exact hi.frame rfl rfl (.inl rfl) (by simp) rfl id (by simp)
    · next t =>
      obtain ⟨n1, h1, rfl⟩ := Option.map_eq_some'.mp h
      have h0 : NodeInv { n with connected := true, state := { n.state with connectedTime := some t } } :=
        hi.frame rfl rfl (.inl rfl) hi.idle rfl id rfl
      rcases Node.send_cases h1 with ⟨-, rfl⟩ | ⟨-, rfl⟩ <;>
        exact h0.frame rfl rfl (by simp) (by simp) rfl (fun _ => by simp [hi.idle hrun, IncomingPc.live]) rfl
  | send =>
    simp only [Node.stepLive] at h
    split at h
    · next nx hinc =>
      cases h
      exact hi.frame rfl rfl (.inl rfl) (absurd · (hi.run_ne_idle (by simp [hinc]))) rfl
        (fun hl => by simpa [hinc, IncomingPc.live] using hl) rfl
    · next m ms nx hinc =>
      obtain ⟨n1, h1, rfl⟩ := Option.map_eq_some'.mp h
      rcases Node.send_cases h1 with ⟨-, rfl⟩ | ⟨-, rfl⟩ <;>
        exact hi.frame rfl rfl (by simp) (absurd · (hi.run_ne_idle (by simp [hinc]))) rfl
          (fun hl => by simpa [hinc, IncomingPc.live] using hl) rfl
    · cases h
  | read outcome =>
    simp only [Node.stepLive] at h
    split_ifs at h with hinc
    have hinc : n.incoming = .read := by simpa using hinc
    split at h <;> cases h <;>
      exact hi.frame rfl rfl (.inl rfl) (absurd · (hi.run_ne_idle (by simp [hinc]))) rfl
        (fun _ => by simp [hinc, IncomingPc.live]) rfl
  | incomingStop =>
    simp only [Node.stepLive] at h
    split_ifs at h with hinc
    cases h
    have hinc : n.incoming = .stop := by simpa using hinc
    rw [Node.stop_eq hi.closed_eq]
    exact ⟨rfl, hi.no_double_close, (absurd · (hi.run_ne_idle (by simp [hinc]))),
      hi.duty.imp fun _ hd => hd.frame rfl fun h => by simp [IncomingPc.live] at h, hi.score_count⟩
  | checkTimeouts timedOut =>
    simp only [Node.stepLive] at h
    split_ifs at h <;> cases h
    · have h1 : NodeInv { n with scores := n.scores ++ [-1] } :=
        hi.frame rfl rfl (.inl rfl) hi.idle rfl id (by simp)
      exact h1.stop.frame rfl rfl (.inl rfl) h1.stop.idle rfl id rfl
    all_goals exact hi.frame rfl rfl (.inl rfl) hi.idle rfl id rfl
  | stop => cases h; exact hi.stop
  | broadcastTx hash =>
    simp only [Node.stepLive] at h
    split_ifs at h
    · exact hi.send h
    · cases h; exact hi
  | runJoin =>
    simp only [Node.stepLive] at h
    split_ifs at h; cases h; exact hi.frame rfl rfl (.inl rfl) (by simp) rfl id rfl
  -- these move the timeout duty's program counter or the buffer's head
  | sleep | drain =>
    simp only [Node.stepLive] at h
    split_ifs at h <;> (try split at h) <;> cases h <;>
      exact hi.frame rfl rfl (.inl rfl) hi.idle rfl id rfl

theorem nodeInv_new : NodeInv newUntrustedNode :=
  ⟨rfl, by simp [newUntrustedNode], fun _ => rfl, ⟨[], rfl, fun _ _ => rfl⟩, rfl⟩

/-- **Run lemma.** In every interleaving, `outgoing` is closed exactly when `outgoingOpen`
is false and never closed twice, and the node's read duty is a run of the sequential read
duty, so the one-shot gates keep `ReadInv` (`NodeInv.read`) and the peer's score is raised
at most once (`NodeInv.score_raised_once`). -/
theorem Reachable.nodeInv (hn : Reachable n) : NodeInv n := by
  induction hn with
  | new => exact nodeInv_new
  | step _ h ih => exact ih.step h

/-- A verified handshake: the handlers report the version and the verified headers, and the
next pass of `check` opens every gate. -/
def verifiedHandshake : List Action :=
  [.runStart (some ⟨0⟩), .check ⟨⟨0⟩, .ok (), .ok []⟩, .send, .read .message,
    .handle (.ok true true []), .send, .check ⟨⟨0⟩, .ok (), .ok []⟩]

/-- After a verified handshake the peer's score has been raised once, and the invariant
holds. -/
theorem nodeInv_verifiedHandshake :
    ∃ n, runActions verifiedHandshake newUntrustedNode = some n ∧ n.scores = [5] ∧
      Reachable n ∧ NodeInv n := by
  obtain ⟨n, hn, hs⟩ := Option.map_eq_some'.mp
    (show (runActions verifiedHandshake newUntrustedNode).map (·.scores) = some [5] by decide)
  have hr := Reachable.new.runActions hn
  exact ⟨n, hn, hs, hr, Reachable.nodeInv hr⟩

/-- The invariant along a run of actions. -/
theorem NodeInv.runActions {n n' : Node} (hi : NodeInv n) :
    ∀ {as : List Action}, runActions as n = some n' → NodeInv n'
  | [], h => by cases h; exact hi
  | a :: as, h => by
    simp only [SpyNode.runActions, Option.bind_eq_some] at h
    obtain ⟨n1, h1, h2⟩ := h
    exact (hi.step h1).runActions h2

/-! ### The peer's score -/

/-- **The peer's score is raised at most once, in every interleaving** (`Reachable.nodeInv`):
the node applies `UpdateScore(+5)` at most once, and has applied it exactly when
`ScoreUpdated` is set. -/
theorem NodeInv.score_raised_once (hi : NodeInv n) :
    n.scores.count 5 ≤ 1 ∧ (5 ∈ n.scores ↔ n.state.scoreUpdated = true) := by
  have hr := hi.read
  rw [← List.count_pos_iff, hi.score_count]
  exact ⟨hr.once .score, List.count_pos_iff.trans (hr.flag .score).symm⟩

theorem score_raised_once_verifiedHandshake :
    (runActions verifiedHandshake newUntrustedNode).map (·.scores) = some [5] ∧
      ∃ n, runActions verifiedHandshake newUntrustedNode = some n ∧
        n.scores.count 5 ≤ 1 ∧ (5 ∈ n.scores ↔ n.state.scoreUpdated = true) := by
  have h : (runActions verifiedHandshake newUntrustedNode).map (·.scores) = some [5] := by decide
  obtain ⟨n, hn, -⟩ := Option.map_eq_some'.mp h
  exact ⟨h, n, hn, NodeInv.score_raised_once (nodeInv_new.runActions hn)⟩

/-! ### `BroadcastTx` -/

/-- What an action does to `outgoingOpen` and `stopping`: nothing, or what `Stop` does
(the channel is closed exactly when `outgoingOpen` is false, so `close` never panics). -/
theorem Node.step_flags (hi : NodeInv n) {a : Action} (h : n.step a = some n') :
    n'.outgoingOpen = n.outgoingOpen ∧ n'.stopping = n.stopping ∨
      n'.outgoingOpen = false ∧ n'.stopping = true := by
  have hsend {k k' : Node} {m : Message} (h : k.send m = some k') :
      k'.outgoingOpen = k.outgoingOpen ∧ k'.stopping = k.stopping := by
    rcases Node.send_cases h with ⟨-, rfl⟩ | ⟨-, rfl⟩ <;> exact ⟨rfl, rfl⟩
  unfold Node.step at h
  split_ifs at h
  cases a with
  | stop =>
    cases h
    rw [Node.stop_eq hi.closed_eq]
    exact .inr ⟨rfl, rfl⟩
  | incomingStop =>
    simp only [Node.stepLive] at h
    split_ifs at h
    cases h
    rw [Node.stop_eq hi.closed_eq]
    exact .inr ⟨rfl, rfl⟩
  | checkTimeouts timedOut =>
    simp only [Node.stepLive] at h
    split_ifs at h <;> cases h
    · rw [@Node.stop_eq { n with scores := n.scores ++ [-1] } hi.closed_eq]
      exact .inr ⟨rfl, rfl⟩
    all_goals exact .inl ⟨rfl, rfl⟩
  | runStart connectedAt =>
    simp only [Node.stepLive] at h
    split_ifs at h
    split at h
    · cases h
      exact .inl ⟨rfl, rfl⟩
    · obtain ⟨n1, h1, rfl⟩ := Option.map_eq_some'.mp h
      have := hsend h1
      exact .inl this
  | send =>
    simp only [Node.stepLive] at h
    split at h
    · cases h
      exact .inl ⟨rfl, rfl⟩
    · obtain ⟨n1, h1, rfl⟩ := Option.map_eq_some'.mp h
      have := hsend h1
      exact .inl this
    · cases h
  | broadcastTx hash =>
    simp only [Node.stepLive] at h
    split_ifs at h
    · exact .inl (hsend h)
    · cases h
      exact .inl ⟨rfl, rfl⟩
  | runJoin | check env | read outcome | handle outcome | sleep | drain =>
    simp only [Node.stepLive] at h
    split_ifs at h <;> (try split at h) <;> cases h <;> exact .inl ⟨rfl, rfl⟩

/-- In every interleaving `outgoingOpen` is cleared exactly when `Stop` has run. -/
theorem Reachable.outgoingOpen_eq (hn : Reachable n) : NodeInv n ∧ n.outgoingOpen = !n.stopping := by
  induction hn with
  | new => exact ⟨nodeInv_new, rfl⟩
  | step _ h ih =>
    refine ⟨ih.1.step h, ?_⟩
    rcases Node.step_flags ih.1 h with ⟨ho, hs⟩ | ⟨ho, hs⟩
    · rw [ho, hs, ih.2]
    · rw [ho, hs]
      rfl

/-- **`BroadcastTx` in every interleaving.** Once the process has panicked nothing runs;
otherwise `BroadcastTx` is refused, changing nothing, exactly when `Stop` has run, and
before that it queues the transaction on the open channel, blocking while the channel is
full. It never panics. -/
theorem Reachable.broadcastTx_eq (hn : Reachable n) (hash : Hash) :
    n.step (.broadcastTx hash) =
      if n.panic.isSome then none
      else if n.stopping then some n
      else if n.outgoing.buffer.length < outgoingCapacity then
        some { n with outgoing := { n.outgoing with buffer := n.outgoing.buffer ++ [.tx hash] } }
      else none := by
  obtain ⟨hi, ho⟩ := hn.outgoingOpen_eq
  have hc : n.outgoing.closed = n.stopping := by rw [hi.closed_eq, ho, Bool.not_not]
  simp only [Node.step, Node.stepLive, ho]
  cases hs : n.stopping <;> simp [hs, hc, ho, Node.send, Chan.send]

/-- Before `Stop` a broadcast transaction is queued; after it, it is refused. -/
theorem broadcastTx_eq_handshake_stop :
    (∃ n, runActions verifiedHandshake newUntrustedNode = some n ∧
      n.step (.broadcastTx 0) =
        some { n with outgoing := { n.outgoing with buffer := n.outgoing.buffer ++ [.tx 0] } }) ∧
    ∃ n, runActions (verifiedHandshake ++ [.stop]) newUntrustedNode = some n ∧
      n.stopping = true ∧ n.step (.broadcastTx 0) = some n := by
  obtain ⟨n, hn, hf⟩ := Option.map_eq_some'.mp
    (show (runActions verifiedHandshake newUntrustedNode).map
        (fun n => (n.panic, n.stopping, decide (n.outgoing.buffer.length < outgoingCapacity))) =
      some (none, false, true) by decide)
  obtain ⟨n', hn', hf'⟩ := Option.map_eq_some'.mp
    (show (runActions (verifiedHandshake ++ [.stop]) newUntrustedNode).map
        (fun n => (n.panic, n.stopping)) = some (none, true) by decide)
  simp only [Prod.mk.injEq, decide_eq_true_eq] at hf hf'
  refine ⟨⟨n, hn, ?_⟩, n', hn', hf'.2, ?_⟩
  · rw [Reachable.broadcastTx_eq (Reachable.new.runActions hn)]
    simp [hf]
  · rw [Reachable.broadcastTx_eq (Reachable.new.runActions hn')]
    simp [hf']

/-! ### Sends on the closed channel -/

/-- The timeout duty stops the node while the read duty waits in `handleMessage`; the
handler's reply is then sent on the closed channel. -/
def timeoutThenReply : List Action :=
  [.runStart (some ⟨0⟩), .check ⟨⟨0⟩, .ok (), .ok []⟩, .send, .read .message, .sleep,
    .checkTimeouts true, .handle (.ok false false [.other "pong"]), .send]

/-- **A send on the closed channel is reachable.** An external `Stop()` before `Run`
connects, and `Run` queues its version message on the closed channel; a timeout that stops
the node while a handler runs, and the read duty queues the handler's reply on it. Both
panic with "send on closed channel". -/
theorem send_on_closed_reachable :
    (runActions [.stop, .runStart (some ⟨0⟩)] newUntrustedNode).map (·.panic) =
        some (some .sendOnClosed) ∧
      (runActions timeoutThenReply newUntrustedNode).map (·.panic) = some (some .sendOnClosed) ∧
      ∃ n, Reachable n ∧ n.panic = some .sendOnClosed := by
  refine ⟨by decide, by decide, ?_⟩
  obtain ⟨n, hr, hp⟩ := Option.map_eq_some'.mp
    (show (runActions [.stop, .runStart (some ⟨0⟩)] newUntrustedNode).map (·.panic) =
      some (some .sendOnClosed) by decide)
  exact ⟨n, Reachable.new.runActions hr, hp⟩

end SmartContract.SpyNode
