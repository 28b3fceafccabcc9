import SmartContract.SpyNode.Interleavings
/-!
# SmartContract.SpyNode.Penalties

**How often the node penalises its peer.** The node lowers the peer's score by one in
three places: `Run` when the connection fails, `monitorIncoming` when a handler fails, and
`monitorRequestTimeouts` when a request timed out. Each is followed by leaving its loop, and
a failed connection starts neither duty. So in every interleaving of `Run`, its duties and
any `Stop` and `BroadcastTx` calls, every score update is `+5` (from `check`) or `-1`, and
there are at most two `-1`s (`Reachable.penalties`).

## Proof shape

`penaltyBudget` counts the places that may already have penalised: `Run` after a failed
connection, the read duty once it has decided to stop, the timeout duty once it is done.
No action takes a place back, and an action that applies `-1` moves one forward
(`PenaltyInv.step`). A failed connection leaves the timeout duty idle, which keeps the read
duty idle (`PenaltyInv.waits`), so the first place excludes the other two.
-/

namespace SmartContract.SpyNode

variable {n n' : Node}

/-! ### What `Stop`, a send and `check` leave alone -/

/-- `Stop` touches only the flags, the channel and the panic. -/
theorem Node.stop_frame (n : Node) :
    n.stop.scores = n.scores ∧ n.stop.run = n.run ∧ n.stop.incoming = n.incoming ∧
      n.stop.timeouts = n.timeouts := by
  unfold Node.stop; dsimp only; split <;> (try split) <;> exact ⟨rfl, rfl, rfl, rfl⟩

@[simp] theorem Node.stop_scores (n : Node) : n.stop.scores = n.scores := (Node.stop_frame n).1

@[simp] theorem Node.stop_run (n : Node) : n.stop.run = n.run := (Node.stop_frame n).2.1

@[simp] theorem Node.stop_incoming (n : Node) : n.stop.incoming = n.incoming := (Node.stop_frame n).2.2.1

@[simp] theorem Node.stop_timeouts (n : Node) : n.stop.timeouts = n.timeouts := (Node.stop_frame n).2.2.2

/-- A send touches only the channel, or the panic. -/
theorem Node.send_frame {m : Message} (h : n.send m = some n') :
    n'.scores = n.scores ∧ n'.run = n.run ∧ n'.incoming = n.incoming ∧ n'.timeouts = n.timeouts := by
  rcases Node.send_cases h with ⟨-, rfl⟩ | ⟨-, rfl⟩ <;> exact ⟨rfl, rfl, rfl, rfl⟩

/-- The one-shot blocks after `Verified` raise the score by five, if at all. -/
theorem afterVerified_scoreDelta (s : UntrustedState) :
    ∀ d ∈ (afterVerified s).2.filterMap Effect.scoreDelta?, d = 5 := by
  unfold afterVerified oneShot
  split_ifs <;> simp [Effect.scoreDelta?]

/-- Requesting headers applies no score update. -/
theorem requestHeaders_scoreDelta {env : CheckEnv} {s s' : UntrustedState} {e : List Effect}
    (h : requestHeaders env s = .ok (s', e)) : e.filterMap Effect.scoreDelta? = [] := by
  unfold requestHeaders at h
  split_ifs at h <;> (try split at h) <;> cases h <;> rfl

/-- `check` only ever raises the score, by five. -/
theorem check_scoreDelta (env : CheckEnv) (s : UntrustedState) :
    ∀ d ∈ (check env s).2.1.filterMap Effect.scoreDelta?, d = 5 := by
  unfold check
  split_ifs
  · simp
  · split
    · simp
    · next s1 _ hr =>
      have h1 := requestHeaders_scoreDelta hr
      have h2 := afterVerified_scoreDelta s1
      split_ifs
      · simp [h1]
      · revert h2
        obtain ⟨_, e2⟩ := afterVerified s1
        cases env.trackerResponses <;> simp [h1, Function.comp_def, Effect.scoreDelta?]

/-! ### The penalty budget -/

/-- The places that may already have applied a `-1`: `Run` after a failed connection, the
read duty once it has decided to stop, and the timeout duty once it is done. -/
def penaltyBudget (n : Node) : Nat :=
  (if n.run = .done ∧ n.timeouts = .idle then 1 else 0) +
    (if n.incoming = .stop ∨ n.incoming = .done then 1 else 0) + (if n.timeouts = .done then 1 else 0)

/-- What every reachable node keeps about its score updates: the timeout duty starts with
`Run`, the read duty with the timeout duty, every update is `+5` or `-1`, and the `-1`s
stay within the budget. -/
structure PenaltyInv (n : Node) : Prop where
  idle : n.run = .idle → n.timeouts = .idle
  waits : n.timeouts = .idle → n.incoming = .idle
  deltas : ∀ d ∈ n.scores, d = 5 ∨ d = -1
  count : n.scores.count (-1) ≤ penaltyBudget n

/-- An action that appends the updates `ds` and moves the budget up by at least their
`-1`s. -/
theorem PenaltyInv.of_step (hi : PenaltyInv n) {ds : List Int} (hs : n'.scores = n.scores ++ ds)
    (hidle : n'.run = .idle → n'.timeouts = .idle) (hwaits : n'.timeouts = .idle → n'.incoming = .idle)
    (hds : ∀ d ∈ ds, d = 5 ∨ d = -1) (hb : penaltyBudget n + ds.count (-1) ≤ penaltyBudget n') :
    PenaltyInv n' where
  idle := hidle
  waits := hwaits
  deltas d hd := (List.mem_append.mp (hs ▸ hd)).elim (hi.deltas d) (hds d)
  count := by
    rw [hs, List.count_append]
    have := hi.count
    omega

/-- An action that applies no update and takes no place back. -/
theorem PenaltyInv.mono (hi : PenaltyInv n) (hs : n'.scores = n.scores)
    (hidle : n'.run = .idle → n'.timeouts = .idle) (hwaits : n'.timeouts = .idle → n'.incoming = .idle)
    (hb : penaltyBudget n ≤ penaltyBudget n') : PenaltyInv n' :=
  hi.of_step (by rw [hs, List.append_nil]) hidle hwaits (fun _ h => absurd h (List.not_mem_nil _))
    (by simpa using hb)

/-- An action that applies `-1` and moves a place forward. -/
theorem PenaltyInv.penalise (hi : PenaltyInv n) (hs : n'.scores = n.scores ++ [-1])
    (hidle : n'.run = .idle → n'.timeouts = .idle) (hwaits : n'.timeouts = .idle → n'.incoming = .idle)
    (hb : penaltyBudget n + 1 ≤ penaltyBudget n') : PenaltyInv n' :=
  hi.of_step hs hidle hwaits (by simp) (by simpa using hb)

/-- An action that moves none of the four program counters and applies no update. -/
theorem PenaltyInv.frame (hi : PenaltyInv n) (hs : n'.scores = n.scores) (hr : n'.run = n.run)
    (hinc : n'.incoming = n.incoming) (ht : n'.timeouts = n.timeouts) : PenaltyInv n' :=
  hi.mono hs (by rw [hr, ht]; exact hi.idle) (by rw [ht, hinc]; exact hi.waits)
    (by simp [penaltyBudget, hr, hinc, ht])

/-- Once the read duty has started, so has the timeout duty. -/
theorem PenaltyInv.timeouts_ne_idle (hi : PenaltyInv n) (h : n.incoming ≠ .idle) : n.timeouts ≠ .idle :=
  fun ht => h (hi.waits ht)

/-- Once the timeout duty has started, the node is no longer idle. -/
theorem PenaltyInv.run_ne_idle (hi : PenaltyInv n) (h : n.timeouts ≠ .idle) : n.run ≠ .idle :=
  fun hr => h (hi.idle hr)

/-- **Step lemma.** Every action keeps the invariant. -/
theorem PenaltyInv.step (hi : PenaltyInv n) {a : Action} (h : n.step a = some n') : PenaltyInv n' := by
  unfold Node.step at h
  split_ifs at h
  cases a with
  | runStart connectedAt =>
    simp only [Node.stepLive] at h
    split_ifs at h with hrun
    have hrun : n.run = .idle := by simpa using hrun
    have ht := hi.idle hrun
    have h0 : penaltyBudget n = 0 := by simp [penaltyBudget, hrun, ht, hi.waits ht]
    split at h
    · cases h
      exact hi.penalise rfl (by simp) (fun _ => hi.waits ht) (by rw [h0]; simp [penaltyBudget, ht])
    · obtain ⟨n1, h1, rfl⟩ := Option.map_eq_some'.mp h
      exact hi.mono (Node.send_frame h1).1 (by simp) (by simp) (by simp [h0])
  | runJoin =>
    simp only [Node.stepLive] at h
    split_ifs at h with hg
    cases h
    exact hi.mono rfl (by simp) (by simp [hg.2.2.1]) (by simp [penaltyBudget, hg.1, hg.2.1, hg.2.2.1])
  | check env =>
    simp only [Node.stepLive] at h
    split_ifs at h with hinc
    all_goals
      cases h
      have hinc : n.incoming = .check := by simpa using hinc
      have ht := hi.timeouts_ne_idle (by simp [hinc])
      have hfive := check_scoreDelta env n.state
      have hc : ((check env n.state).2.1.filterMap Effect.scoreDelta?).count (-1) = 0 :=
        List.count_eq_zero_of_not_mem fun h => by simpa using hfive _ h
      exact hi.of_step rfl hi.idle (absurd · ht) (fun d hd => .inl (hfive d hd))
        (by simp [penaltyBudget, hinc, hc])
  | send =>
    simp only [Node.stepLive] at h
    split at h
    · next nx hinc =>
      cases h
      have ht := hi.timeouts_ne_idle (by simp [hinc])
      exact hi.mono rfl hi.idle (absurd · ht) (by simp [penaltyBudget, hinc, ht])
    · next m ms nx hinc =>
      obtain ⟨n1, h1, rfl⟩ := Option.map_eq_some'.mp h
      obtain ⟨hs, hr, hi1, ht1⟩ := Node.send_frame h1
      have ht := hi.timeouts_ne_idle (by simp [hinc])
      exact hi.mono hs (by simpa [hr, ht1] using hi.idle) (fun h => absurd (ht1 ▸ h) ht)
        (by simp [penaltyBudget, hinc, hr, ht1, ht])
    · cases h
  | read outcome =>
    simp only [Node.stepLive] at h
    split_ifs at h with hinc
    have hinc : n.incoming = .read := by simpa using hinc
    have ht := hi.timeouts_ne_idle (by simp [hinc])
    split at h <;> cases h <;> exact hi.mono rfl hi.idle (absurd · ht) (by simp [penaltyBudget, hinc, ht])
  | handle outcome =>
    simp only [Node.stepLive] at h
    split_ifs at h with hinc
    have hinc : n.incoming = .handle := by simpa using hinc
    have ht := hi.timeouts_ne_idle (by simp [hinc])
    split at h <;> cases h
    · exact hi.mono rfl hi.idle (absurd · ht) (by simp [penaltyBudget, hinc, ht])
    · exact hi.penalise rfl hi.idle (absurd · ht) (by simp [penaltyBudget, hinc, ht]; omega)
  | incomingStop =>
    simp only [Node.stepLive] at h
    split_ifs at h with hinc
    cases h
    have hinc : n.incoming = .stop := by simpa using hinc
    have ht := hi.timeouts_ne_idle (by simp [hinc])
    exact hi.mono (by simp) (by simpa using hi.idle) (by simp [ht]) (by simp [penaltyBudget, hinc, ht])
  | sleep =>
    simp only [Node.stepLive] at h
    split_ifs at h with ht
    cases h
    have ht : n.timeouts = .sleep := by simpa using ht
    exact hi.mono rfl (absurd · (hi.run_ne_idle (by simp [ht]))) (by simp) (by simp [penaltyBudget, ht])
  | checkTimeouts timedOut =>
    simp only [Node.stepLive] at h
    split_ifs at h with ht <;> cases h
    all_goals
      have ht : n.timeouts = .checkTimeouts := by simpa using ht
      have hr := hi.run_ne_idle (by simp [ht])
    · exact hi.penalise (by simp) (by simp [hr]) (by simp) (by simp [penaltyBudget, ht])
    · exact hi.mono rfl (absurd · hr) (by simp) (by simp [penaltyBudget, ht])
    · exact hi.mono rfl (absurd · hr) (by simp) (by simp [penaltyBudget, ht])
  | drain =>
    simp only [Node.stepLive] at h
    split_ifs at h <;> (try split at h) <;> cases h <;> exact hi.frame rfl rfl rfl rfl
  | stop =>
    cases h
    exact hi.frame (by simp) (by simp) (by simp) (by simp)
  | broadcastTx hash =>
    simp only [Node.stepLive] at h
    split_ifs at h
    · obtain ⟨hs, hr, hinc, ht⟩ := Node.send_frame h
      exact hi.frame hs hr hinc ht
    · cases h
      exact hi

theorem penaltyInv_new : PenaltyInv newUntrustedNode :=
  ⟨fun _ => rfl, fun _ => rfl, fun _ h => absurd h (List.not_mem_nil _), Nat.zero_le _⟩

/-- A failed connection excludes the other two places, so the budget is at most two. -/
theorem PenaltyInv.budget_le_two (hi : PenaltyInv n) : penaltyBudget n ≤ 2 := by
  unfold penaltyBudget
  by_cases h : n.run = .done ∧ n.timeouts = .idle
  · simp [h, hi.waits h.2]
  · simp only [h, if_false]
    split_ifs <;> omega

/-- **The peer is penalised at most twice, in every interleaving.** Every score update the
node applies is `+5` or `-1`, and it applies `-1` at most twice. -/
theorem Reachable.penalties (hn : Reachable n) :
    (∀ d ∈ n.scores, d = 5 ∨ d = -1) ∧ n.scores.count (-1) ≤ 2 := by
  have hi : PenaltyInv n := by
    induction hn with
    | new => exact penaltyInv_new
    | step _ h ih => exact ih.step h
  exact ⟨hi.deltas, hi.count.trans hi.budget_le_two⟩

/-- A handler fails, and the read duty stops; then the request timeout fires as well. -/
def handlerErrorThenTimeout : List Action :=
  [.runStart (some ⟨0⟩), .check ⟨⟨0⟩, .ok (), .ok []⟩, .send, .read .message, .handle .error,
    .sleep, .checkTimeouts true]

/-- The bound is reached: both duties penalise the peer once. -/
theorem penalties_handlerErrorThenTimeout :
    (runActions handlerErrorThenTimeout newUntrustedNode).map (·.scores) = some [-1, -1] ∧
      ∃ n, Reachable n ∧ n.scores = [-1, -1] ∧
        (∀ d ∈ n.scores, d = 5 ∨ d = -1) ∧ n.scores.count (-1) ≤ 2 := by
  have h : (runActions handlerErrorThenTimeout newUntrustedNode).map (·.scores) = some [-1, -1] := by
    decide
  obtain ⟨n, hn, hs⟩ := Option.map_eq_some'.mp h
  have hr := Reachable.new.runActions hn
  exact ⟨h, n, hr, hs, Reachable.penalties hr⟩

end SmartContract.SpyNode
