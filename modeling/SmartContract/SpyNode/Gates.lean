import SmartContract.SpyNode.Check
/-!
# SmartContract.SpyNode.Gates

**`check`'s four gates fire at most once, in order.** Over every run of the read duty,
with the command handlers setting `VersionReceived` and `Verified` at any points between
passes, the header request, the `+5` score update, the `getaddr` and the mempool request
each happen at most once; each flag is set exactly when its action has happened; the
header request comes after `VersionReceived`, and the other three after `Verified` and
after the header request.

## Proof shape

`ReadInv s tr` ties the state's flags to the trace. One lemma fires one gate
(`ReadInv.fire`): its prerequisites are in the trace and its flag is off, so its effect
is new. Every block of `check` is a gate that fires or stays shut (`ReadInv.gate`), and
the tracker's responses are no gate's effect (`ReadInv.response`); so a whole pass keeps
the invariant (`ReadInv.check`), and by induction a whole run (`ReadInv.runFrom`).

That is safety only. The gates also fire: a pass after `VersionReceived` sends the header
request while the handshake is incomplete, and a pass after `Verified` fires every other
gate whose flag is off (`check_fires`).
-/

namespace SmartContract.SpyNode

/-- Every `b` in a trace, oldest entry first, comes after some `a`. -/
def Precedes {α : Type} (a b : α) : List α → Prop
  | [] => True
  | x :: tr => x = a ∨ (x ≠ b ∧ Precedes a b tr)

theorem precedes_snoc {α : Type} {a b x : α} (hab : a ≠ b) (tr : List α) :
    Precedes a b (tr ++ [x]) ↔ Precedes a b tr ∧ (x = b → a ∈ tr) := by
  induction tr with
  | nil =>
    simp only [List.nil_append, Precedes, List.not_mem_nil, imp_false, true_and]
    constructor
    · rintro (rfl | ⟨h, -⟩) <;> [exact hab; exact h]
    · exact fun h => .inr ⟨h, trivial⟩
  | cons y tr ih =>
    rw [List.cons_append, Precedes, Precedes, ih]
    by_cases hy : y = a
    · simp [hy]
    · simp [hy, Ne.symm hy, and_assoc]

/-- The four one-shot gates of `check`. -/
inductive Gate
  | headers
  | score
  | addresses
  | memPool
  deriving DecidableEq

/-- The flag that guards a gate. -/
def Gate.flag : Gate → UntrustedState → Bool
  | .headers => (·.handshakeComplete)
  | .score => (·.scoreUpdated)
  | .addresses => (·.addressesRequested)
  | .memPool => (·.memPoolRequested)

/-- What a gate does when it fires. -/
def Gate.effect : Gate → Effect
  | .headers => .headerRequest
  | .score => .updateScore 5
  | .addresses => .getAddr
  | .memPool => .memPoolRequest

/-- What must be in the trace before a gate fires. -/
def Gate.prereqs : Gate → List Entry
  | .headers => [.versionReceived]
  | _ => [.verified, .effect .headerRequest]

theorem Gate.effect_inj {g g' : Gate} (h : g.effect = g'.effect) : g = g' := by
  cases g <;> cases g' <;> simp_all [Gate.effect]

theorem Gate.prereq_ne {g : Gate} {p : Entry} (hp : p ∈ g.prereqs) : p ≠ .effect g.effect := by
  cases g <;> simp only [Gate.prereqs, List.mem_cons, List.mem_singleton, List.not_mem_nil,
    or_false] at hp <;> rcases hp with rfl | rfl <;> simp [Gate.effect]

/-- The read duty's invariant: each handler flag and each gate flag is set exactly when its
entry is in the trace, no gate effect is there twice, and each gate effect comes after its
prerequisites. -/
structure ReadInv (s : UntrustedState) (tr : List Entry) : Prop where
  versionReceived : s.versionReceived = true ↔ Entry.versionReceived ∈ tr
  verified : s.verified = true ↔ Entry.verified ∈ tr
  flag : ∀ g : Gate, g.flag s = true ↔ Entry.effect g.effect ∈ tr
  once : ∀ g : Gate, tr.count (.effect g.effect) ≤ 1
  after : ∀ g : Gate, ∀ p ∈ g.prereqs, Precedes p (.effect g.effect) tr

variable {s s' : UntrustedState} {tr : List Entry}

theorem readInv_new : ReadInv newUntrustedState [] :=
  ⟨by simp [newUntrustedState], by simp [newUntrustedState],
    fun g => by cases g <;> simp [Gate.flag, newUntrustedState], fun _ => by simp,
    fun _ _ _ => trivial⟩

/-- The invariant reads only the flags. -/
theorem ReadInv.congr (hi : ReadInv s tr) (hvr : s'.versionReceived = s.versionReceived)
    (hv : s'.verified = s.verified) (hg : ∀ g : Gate, g.flag s' = g.flag s) : ReadInv s' tr :=
  ⟨hvr ▸ hi.versionReceived, hv ▸ hi.verified, fun g => hg g ▸ hi.flag g, hi.once, hi.after⟩

/-- Appending an entry that is no gate's effect. -/
theorem ReadInv.quiet {x : Entry} (hx : ∀ g : Gate, x ≠ .effect g.effect) (hi : ReadInv s tr)
    (hvr : s'.versionReceived = true ↔ Entry.versionReceived ∈ tr ++ [x])
    (hv : s'.verified = true ↔ Entry.verified ∈ tr ++ [x]) (hg : ∀ g : Gate, g.flag s' = g.flag s) :
    ReadInv s' (tr ++ [x]) where
  versionReceived := hvr
  verified := hv
  flag g := by simpa [hg g, Ne.symm (hx g)] using hi.flag g
  once g := by simpa [List.count_singleton', hx g] using hi.once g
  after g p hp := (precedes_snoc (Gate.prereq_ne hp) tr).mpr ⟨hi.after g p hp, fun h => absurd h (hx g)⟩

theorem ReadInv.setVersionReceived (hi : ReadInv s tr) :
    ReadInv { s with versionReceived := true } (tr ++ [.versionReceived]) :=
  hi.quiet (fun g => by simp) (by simp) (by simpa using hi.verified) (fun g => by cases g <;> rfl)

theorem ReadInv.setVerified (hi : ReadInv s tr) :
    ReadInv { s with verified := true } (tr ++ [.verified]) :=
  hi.quiet (fun g => by simp) (by simpa using hi.versionReceived) (by simp) (fun g => by cases g <;> rfl)

theorem ReadInv.response (hi : ReadInv s tr) (m : Message) :
    ReadInv s (tr ++ [.effect (.response m)]) :=
  hi.quiet (fun g => by cases g <;> simp [Gate.effect]) (by simpa using hi.versionReceived)
    (by simpa using hi.verified) (fun _ => rfl)

/-- **Firing one gate.** With its prerequisites in the trace and its flag off, a gate that
sets its flag and leaves the others keeps the invariant. -/
theorem ReadInv.fire (hi : ReadInv s tr) (g : Gate) (hpre : ∀ p ∈ g.prereqs, p ∈ tr)
    (hoff : g.flag s = false) (hon : g.flag s' = true) (hothers : ∀ g', g' ≠ g → g'.flag s' = g'.flag s)
    (hvr : s'.versionReceived = s.versionReceived) (hv : s'.verified = s.verified) :
    ReadInv s' (tr ++ [.effect g.effect]) where
  versionReceived := by simpa [hvr] using hi.versionReceived
  verified := by simpa [hv] using hi.verified
  flag g' := by
    by_cases h : g' = g
    · subst h; simp [hon]
    · have hne : g.effect ≠ g'.effect := fun he => h (Gate.effect_inj he).symm
      simpa [hothers g' h, Ne.symm hne] using hi.flag g'
  once g' := by
    by_cases h : g' = g
    · subst h
      have hnot : Entry.effect g'.effect ∉ tr := fun hm => by simp [(hi.flag g').mpr hm] at hoff
      simp [List.count_eq_zero_of_not_mem hnot]
    · have hne : g.effect ≠ g'.effect := fun he => h (Gate.effect_inj he).symm
      simpa [List.count_singleton', hne] using hi.once g'
  after g' p hp := by
    refine (precedes_snoc (Gate.prereq_ne hp) tr).mpr ⟨hi.after g' p hp, fun he => ?_⟩
    obtain rfl := Gate.effect_inj (Entry.effect.inj he)
    exact hpre p hp

/-- A gate that fires when its flag is off and stays shut when it is on. -/
theorem ReadInv.gate (hi : ReadInv s tr) (g : Gate) (hpre : ∀ p ∈ g.prereqs, p ∈ tr)
    (hon : g.flag s' = true) (hothers : ∀ g', g' ≠ g → g'.flag s' = g'.flag s)
    (hvr : s'.versionReceived = s.versionReceived) (hv : s'.verified = s.verified) :
    ReadInv s' (tr ++ (if g.flag s then [] else [g.effect]).map .effect) := by
  cases hg : g.flag s
  · exact hi.fire g hpre hg hon hothers hvr hv
  · simp only [↓reduceIte, List.map_nil, List.append_nil]
    refine hi.congr hvr hv fun g' => ?_
    by_cases h : g' = g
    · subst h; rw [hon, hg]
    · exact hothers g' h

/-- The header block keeps the invariant and leaves the handshake complete. -/
theorem ReadInv.requestHeaders (hi : ReadInv s tr) (hvr : s.versionReceived = true) {env : CheckEnv}
    {s1 : UntrustedState} {e1 : List Effect} (h : requestHeaders env s = .ok (s1, e1)) :
    ReadInv s1 (tr ++ e1.map .effect) ∧ s1.handshakeComplete = true ∧ s1.verified = s.verified := by
  unfold SpyNode.requestHeaders at h
  split_ifs at h with hc
  · cases h
    exact ⟨by simpa using hi, hc, rfl⟩
  · split at h
    · cases h
    · cases h
      refine ⟨hi.fire .headers ?_ (by simpa [Gate.flag] using hc) rfl ?_ rfl rfl, rfl, rfl⟩
      · simpa [Gate.prereqs] using hi.versionReceived.mp hvr
      · intro g' hg'; cases g' <;> simp_all [Gate.flag]

/-- The three blocks after `Verified` keep the invariant. -/
theorem ReadInv.afterVerified (hi : ReadInv s tr) (hv : s.verified = true)
    (hh : s.handshakeComplete = true) :
    ReadInv (afterVerified s).1 (tr ++ (afterVerified s).2.map .effect) := by
  have hpre : ∀ g : Gate, g ≠ .headers → ∀ p ∈ g.prereqs, p ∈ tr := by
    intro g hg p hp
    have : p = .verified ∨ p = .effect .headerRequest := by cases g <;> simp_all [Gate.prereqs]
    rcases this with rfl | rfl
    · exact hi.verified.mp hv
    · exact (hi.flag .headers).mp hh
  have h1 : ReadInv { s with scoreUpdated := true } _ :=
    hi.gate .score (hpre _ (by decide)) rfl (fun g h => by cases g <;> simp_all [Gate.flag]) rfl rfl
  have h2 : ReadInv { s with scoreUpdated := true, addressesRequested := true } _ :=
    h1.gate .addresses (fun p hp => List.mem_append_left _ (hpre _ (by decide) p hp)) rfl
      (fun g h => by cases g <;> simp_all [Gate.flag]) rfl rfl
  have h3 : ReadInv
      { s with scoreUpdated := true, addressesRequested := true, memPoolRequested := true } _ :=
    h2.gate .memPool
      (fun p hp => List.mem_append_left _ (List.mem_append_left _ (hpre _ (by decide) p hp))) rfl
      (fun g h => by cases g <;> simp_all [Gate.flag]) rfl rfl
  simpa [SpyNode.afterVerified, oneShot, Gate.flag, Gate.effect, List.append_assoc] using h3

theorem ReadInv.responses (hi : ReadInv s tr) (ms : List Message) :
    ReadInv s (tr ++ (ms.map .response).map .effect) := by
  induction ms generalizing tr with
  | nil => simpa using hi
  | cons m ms ih => simpa using ih (hi.response m)

/-- **Step lemma.** A pass of `check` keeps the invariant, whether it succeeds or fails. -/
theorem ReadInv.check (hi : ReadInv s tr) (env : CheckEnv) :
    ReadInv (check env s).1 (tr ++ (check env s).2.1.map .effect) := by
  unfold SpyNode.check
  cases hvr : s.versionReceived
  · simpa using hi
  · cases hr : SpyNode.requestHeaders env s with
    | error err => simpa using hi
    | ok r =>
      obtain ⟨hi1, hh, hv⟩ := hi.requestHeaders hvr hr
      cases hv1 : r.1.verified
      · simpa [hv1] using hi1
      · have hi2 := hi1.afterVerified hv1 hh
        cases env.trackerResponses with
        | error err => simpa [hv1] using hi2
        | ok responses => simpa [hv1] using hi2.responses responses

/-- **Run lemma.** The read duty keeps the invariant from any state that has it. -/
theorem ReadInv.runFrom (hi : ReadInv s tr) (evs : List ReadEvent) :
    ReadInv (runFrom evs s tr).1 (runFrom evs s tr).2 := by
  induction evs generalizing s tr with
  | nil => exact hi
  | cons ev evs ih =>
    cases ev with
    | versionReceived => exact ih hi.setVersionReceived
    | verified => exact ih hi.setVerified
    | check env =>
      have hc := hi.check env
      simp only [SpyNode.runFrom]
      split
      · exact hc
      · exact ih hc

/-- **The one-shot gates over every run of the read duty.** Whatever `check`'s
collaborators answer, and wherever the handlers set `VersionReceived` and `Verified`: the
header request, the `+5` score update, the `getaddr` and the mempool request each happen at
most once; each gate's flag is set exactly when its action has happened; and each happens
only after its prerequisites (`Gate.prereqs`): the header request after `VersionReceived`,
the other three after `Verified` and after the header request. -/
theorem readDuty_gates_once (evs : List ReadEvent) :
    (∀ g : Gate, (runReadDuty evs).2.count (.effect g.effect) ≤ 1) ∧
    (∀ g : Gate, g.flag (runReadDuty evs).1 = true ↔ Entry.effect g.effect ∈ (runReadDuty evs).2) ∧
    (∀ g : Gate, ∀ p ∈ g.prereqs, Precedes p (.effect g.effect) (runReadDuty evs).2) :=
  have hi := readInv_new.runFrom evs
  ⟨hi.once, hi.flag, hi.after⟩

/-! ### The gates fire

`readDuty_gates_once` is a safety statement, which a `check` that did nothing would also
meet. The step lemma below says that `check` does fire its gates: a pass after
`VersionReceived` whose header request is built sends it, and a pass after `Verified` fires
each of the other three gates whose flag is still off. -/

/-- The header block returns once the handshake is complete or the request is built. It
leaves the handshake complete and the other gates' flags and `Verified` as they were, and
sends the request when the handshake was not complete. -/
theorem requestHeaders_ok {env : CheckEnv} {s : UntrustedState}
    (hb : s.handshakeComplete = true ∨ env.headerRequest = .ok ()) :
    ∃ s1 e1, requestHeaders env s = .ok (s1, e1) ∧ s1.handshakeComplete = true ∧
      s1.verified = s.verified ∧ (∀ g ≠ Gate.headers, g.flag s1 = g.flag s) ∧
      (s.handshakeComplete = false → Effect.headerRequest ∈ e1) := by
  unfold requestHeaders
  cases hc : s.handshakeComplete
  · simp only [hb.resolve_left (by simp [hc]), Bool.false_eq_true, if_false]
    refine ⟨_, _, rfl, rfl, rfl, fun g hg => ?_, fun _ => List.mem_singleton_self _⟩
    cases g <;> simp_all [Gate.flag]
  · simp only [if_true]
    exact ⟨s, [], rfl, hc, rfl, fun _ _ => rfl, fun h => absurd h (by simp)⟩

/-- A pass after `VersionReceived` whose header block returned `(s1, e1)`: it stops there
unless `Verified`, and otherwise goes on with the one-shot blocks. -/
theorem check_of_requestHeaders {env : CheckEnv} {s s1 : UntrustedState} {e1 : List Effect}
    (hvr : s.versionReceived = true) (hr : requestHeaders env s = .ok (s1, e1)) :
    ∃ rest err, check env s = if s1.verified then
      ((afterVerified s1).1, e1 ++ (afterVerified s1).2 ++ rest, err) else (s1, e1, none) := by
  unfold check
  simp only [hvr, hr, Bool.not_true, Bool.false_eq_true, if_false]
  cases s1.verified
  · exact ⟨[], none, rfl⟩
  · cases env.trackerResponses with
    | error e => exact ⟨[], some e, by simp⟩
    | ok rs => exact ⟨_, none, rfl⟩

/-- The one-shot blocks set every flag, and fire each gate whose flag was off. -/
theorem afterVerified_fires {g : Gate} (hg : g ≠ .headers) (s : UntrustedState) :
    g.flag (afterVerified s).1 = true ∧ (g.flag s = false → g.effect ∈ (afterVerified s).2) := by
  cases g <;> simp_all [afterVerified, oneShot, Gate.flag, Gate.effect]

/-- **A pass of `check` fires every open gate.** After `VersionReceived`, a pass whose
header request is built (or whose handshake is already complete) fires the header gate if
it is off, and once `Verified` holds it fires each other gate whose flag is off, whatever
the tracker answers; every gate it fires has its flag set afterwards. -/
theorem check_fires (g : Gate) {env : CheckEnv} {s : UntrustedState} (hvr : s.versionReceived = true)
    (hb : s.handshakeComplete = true ∨ env.headerRequest = .ok ())
    (hv : g ≠ .headers → s.verified = true) (hf : g.flag s = false) :
    g.effect ∈ (check env s).2.1 ∧ g.flag (check env s).1 = true := by
  obtain ⟨s1, e1, hr, hcomp, hver, hflags, hreq⟩ := requestHeaders_ok hb
  obtain ⟨rest, err, hc⟩ := check_of_requestHeaders hvr hr
  rw [hc]
  by_cases hg : g = .headers
  · subst hg
    have hh := hreq hf
    split_ifs <;> simp [afterVerified, Gate.effect, Gate.flag, hcomp, hh]
  · have ha := afterVerified_fires hg s1
    rw [if_pos (hver.trans (hv hg))]
    exact ⟨List.mem_append_left _ (List.mem_append_right _ (ha.2 ((hflags g hg).trans hf))), ha.1⟩

end SmartContract.SpyNode