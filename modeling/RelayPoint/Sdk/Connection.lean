import RelayPoint.Concurrency.Trace

/-!
# The client's connection — connect, reconnect and close under every interleaving

`RelayPointClient` runs three asynchronous functions over one record of fields.  What runs between two
awaits is atomic, so a call is the place at which it waits, and a step is the resumption of one call by
the promise it awaits.
-/

namespace RelayPoint.Sdk
namespace Connection

open Concurrency

inductive ConnectionState where
  | disconnected
  | connecting
  | connected
  | reconnecting
  | closed
  | failed
deriving DecidableEq, Repr

structure Options where
  authBackoffMs : Option (List Nat) := none
  connectBackoffMs : Option (List Nat) := none
deriving DecidableEq, Repr

def defaultAuthBackoff : List Nat := [200, 500, 1000, 2000, 4000]

def defaultConnectBackoff : List Nat := [200, 500, 1000, 2000, 4000]

def Options.authBackoff (o : Options) : List Nat := o.authBackoffMs.getD defaultAuthBackoff

def Options.connectBackoff (o : Options) : List Nat :=
  o.connectBackoffMs.getD defaultConnectBackoff

def Options.attempts (o : Options) : Nat := max 1 o.authBackoff.length

inductive Kind where
  | connect
  | reconnect
deriving DecidableEq, Repr

/-- Where a call of `connect` or `reconnect` waits. `attempt` counts the rounds of `establish`, `auth`
those of `tokenWithRetry`. -/
inductive Pc where
  | opening
  | token (attempt auth : Nat)
  | authWait (attempt auth : Nat)
  | linking (attempt : Nat)
  | connectWait (attempt : Nat)
  | returned
  /-- `establish` has thrown (an `AuthFailedError` or not), its caller has not resumed. -/
  | threw (authFailed : Bool)
  | finished
deriving DecidableEq, Repr

structure Call where
  kind : Kind
  pc : Pc
deriving DecidableEq, Repr

inductive Emitted where
  | state (s : ConnectionState)
  | reconnecting
  | reconnected
  | authFailed
deriving DecidableEq, Repr

/-- What the transport sees: a connection established (after `close` was called, or not), and a call
of `transport.close()`. -/
inductive Link where
  | up (late : Bool)
  | down
deriving DecidableEq, Repr

structure Client where
  state : ConnectionState := .disconnected
  closed : Bool := false
  busy : Bool := false
  subscribed : Bool := false
  calls : List Call := []
  closing : Nat := 0
  completed : Bool := false
  emitted : List Emitted := []
  wire : List Link := []
deriving DecidableEq, Repr

namespace Client

def setState (s : ConnectionState) (c : Client) : Client :=
  if s = c.state then c else { c with state := s, emitted := c.emitted ++ [.state s] }

def emit (e : Emitted) (c : Client) : Client :=
  { c with emitted := c.emitted ++ [e] }

def moveTo (i : Nat) (pc : Pc) (c : Client) : Client :=
  { c with calls := c.calls.modify i fun call => { call with pc := pc } }

def connect (c : Client) : Client :=
  -- on a closed client the call throws and changes nothing
  if c.closed then c
  else if c.busy || c.state = .connected then c
  else
    let c := c.setState .connecting
    { c with calls := c.calls ++ [⟨.connect, .opening⟩] }

def reconnect (c : Client) : Client :=
  if c.busy || c.closed then c
  else
    let c := ({ c with busy := true }.setState .reconnecting).emit .reconnecting
    { c with calls := c.calls ++ [⟨.reconnect, .opening⟩] }

def onStatus (final : Bool) (c : Client) : Client :=
  if c.closed then c
  else if final then c.setState .disconnected
  else c.reconnect

def close (c : Client) : Client :=
  { c with closed := true, closing := c.closing + 1, wire := c.wire ++ [.down] }

def closeDone (c : Client) : Client :=
  { c with closing := c.closing - 1, completed := true }.setState .closed

def loopHead (i attempt : Nat) (c : Client) : Client :=
  c.moveTo i (if c.closed then .returned else .token attempt 0)

def enter (i : Nat) (c : Client) : Client :=
  { c with busy := true }.loopHead i 0

def tokenFailed (opts : Options) (i attempt auth : Nat) (c : Client) : Client :=
  if auth + 1 < opts.attempts then c.moveTo i (.authWait attempt auth)
  else ((c.setState .failed).emit .authFailed).moveTo i (.threw true)

def linked (i : Nat) (c : Client) : Client :=
  let c : Client := { c with wire := c.wire ++ [.up c.closed] }
  c.moveTo i .returned

def linkFailed (opts : Options) (i attempt : Nat) (c : Client) : Client :=
  if opts.connectBackoff.length ≤ attempt + 1 then c.moveTo i (.threw false)
  else c.moveTo i (.connectWait attempt)

def established (kind : Kind) (i : Nat) (c : Client) : Client :=
  let c := { c with busy := false }.moveTo i .finished
  if c.closed then { c with wire := c.wire ++ [.down] }
  else
    match kind with
    | .connect => { c.setState .connected with subscribed := true }
    | .reconnect => (c.setState .connected).emit .reconnected

def caught (authFailed : Bool) (i : Nat) (c : Client) : Client :=
  let c := if authFailed then c else c.setState .disconnected
  { c with busy := false }.moveTo i .finished

end Client

inductive Outcome where
  | resolved
  | rejected
deriving DecidableEq, Repr

/-- Call `i`, waiting at `call`, runs on to its next await. The waits never reject. -/
def resume (opts : Options) (i : Nat) (c : Client) : Call → Outcome → Option Client
  | ⟨_, .opening⟩, .resolved => some (c.enter i)
  | ⟨_, .token attempt _⟩, .resolved => some (c.moveTo i (.linking attempt))
  | ⟨_, .token attempt auth⟩, .rejected => some (c.tokenFailed opts i attempt auth)
  | ⟨_, .authWait attempt auth⟩, .resolved => some (c.moveTo i (.token attempt (auth + 1)))
  | ⟨_, .linking _⟩, .resolved => some (c.linked i)
  | ⟨_, .linking attempt⟩, .rejected => some (c.linkFailed opts i attempt)
  | ⟨_, .connectWait attempt⟩, .resolved => some (c.loopHead i (attempt + 1))
  | ⟨kind, .returned⟩, .resolved => some (c.established kind i)
  | ⟨_, .threw authFailed⟩, .resolved => some (c.caught authFailed i)
  | _, _ => none

inductive Event where
  | connect
  | status (final : Bool)
  | close
  | closeSettles (outcome : Outcome)
  | settles (i : Nat) (outcome : Outcome)
deriving DecidableEq, Repr

def step (opts : Options) (c : Client) : Event → Option Client
  | .connect => some c.connect
  | .status final => if c.subscribed then some (c.onStatus final) else none
  | .close => some c.close
  | .closeSettles .resolved => if 0 < c.closing then some c.closeDone else none
  | .closeSettles .rejected =>
    if 0 < c.closing then some { c with closing := c.closing - 1 } else none
  | .settles i outcome => c.calls[i]?.bind fun call => resume opts i c call outcome

/-- The resumption by which a call waiting at `pc` reports that it gives up: the last `getToken()` has
rejected, or the rejection of the last `transport.connect()` reaches `connect` or `reconnect`. -/
def Pc.givesUp (opts : Options) : Pc → Outcome → Bool
  | .token _ auth, .rejected => decide (opts.attempts ≤ auth + 1)
  | .threw false, .resolved => true
  | _, _ => false

def givesUp (opts : Options) (c : Client) : Event → Bool
  | .settles i outcome => c.calls[i]?.any fun call => call.pc.givesUp opts outcome
  | _ => false

def InTime (opts : Options) (c : Client) (e : Event) : Prop :=
  c.completed = true → givesUp opts c e = false
  deriving Decidable

def Client.stateEvents (c : Client) : List ConnectionState :=
  c.emitted.filterMap fun e =>
    match e with
    | .state s => some s
    | _ => none

/-! ## What a step does -/

variable {opts : Options} {c c' : Client} {e : Event} {i : Nat} {call : Call} {o : Outcome}

theorem setState_eq (c : Client) (s : ConnectionState) :
    ∃ emitted, c.setState s = { c with state := s, emitted := emitted } := by
  unfold Client.setState
  split
  · next h => exact ⟨c.emitted, by rw [h]⟩
  · exact ⟨_, rfl⟩

structure SameFlags (c c' : Client) : Prop where
  closed : c'.closed = c.closed
  closing : c'.closing = c.closing
  completed : c'.completed = c.completed

structure Quiet (c c' : Client) : Prop where
  state : c'.state = c.state
  events : c'.stateEvents = c.stateEvents

structure Tacit (calls : List Call) (c c' : Client) : Prop extends SameFlags c c' where
  wire : c'.wire = c.wire
  calls : c'.calls = calls

theorem established_of_closed (h : c.closed = true) (kind : Kind) (i : Nat) :
    c.established kind i =
      { ({ c with busy := false } : Client).moveTo i .finished with wire := c.wire ++ [.down] } := by
  have hc : (({ c with busy := false } : Client).moveTo i .finished).closed = true := h
  simp only [Client.established, hc]
  rfl

theorem established_of_open (h : c.closed = false) (kind : Kind) (i : Nat) :
    Tacit (c.moveTo i .finished).calls c (c.established kind i) := by
  have hc : (({ c with busy := false } : Client).moveTo i .finished).closed = false := h
  rcases setState_eq (({ c with busy := false } : Client).moveTo i .finished) .connected with
    ⟨emitted, hset⟩
  simp only [Client.established, hc, hset]
  cases kind with
  | connect | reconnect => exact ⟨⟨h.symm, rfl, rfl⟩, rfl, rfl⟩

theorem resume_cases (h : resume opts i c call o = some c') :
    (call.pc ≠ .returned ∧ (∃ pc, Tacit (c.moveTo i pc).calls c c') ∧
      (call.pc.givesUp opts o = false → Quiet c c')) ∨
    c' = c.linked i ∨ ∃ kind, call = ⟨kind, .returned⟩ ∧ c' = c.established kind i := by
  revert h
  fun_cases resume opts i c call o with
  | case3 _ attempt auth =>
    rintro ⟨⟩
    refine .inl ⟨by simp, ?_⟩
    unfold Client.tokenFailed
    split
    · exact ⟨⟨_, ⟨rfl, rfl, rfl⟩, rfl, rfl⟩, fun _ => ⟨rfl, rfl⟩⟩
    · next hlast =>
      rcases setState_eq c .failed with ⟨emitted, hset⟩
      rw [hset]
      refine ⟨⟨.threw true, ⟨rfl, rfl, rfl⟩, rfl, rfl⟩, fun hkeeps => ?_⟩
      exact absurd hkeeps (by simpa [Pc.givesUp] using hlast)
  | case5 => exact fun h => .inr (.inl (Option.some.inj h).symm)
  | case6 _ attempt =>
    rintro ⟨⟩
    -- on the last attempt too, the rejection is only noted: its caller has not resumed
    refine .inl ⟨by simp, ?_⟩
    unfold Client.linkFailed
    split <;> exact ⟨⟨_, ⟨rfl, rfl, rfl⟩, rfl, rfl⟩, fun _ => ⟨rfl, rfl⟩⟩
  | case8 kind => exact fun h => .inr (.inr ⟨kind, rfl, (Option.some.inj h).symm⟩)
  | case9 _ authFailed =>
    rintro ⟨⟩
    refine .inl ⟨by simp, ?_⟩
    cases authFailed with
    | true => exact ⟨⟨_, ⟨rfl, rfl, rfl⟩, rfl, rfl⟩, fun _ => ⟨rfl, rfl⟩⟩
    | false =>
      rcases setState_eq c .disconnected with ⟨emitted, hset⟩
      simp only [Client.caught, hset]
      exact ⟨⟨_, ⟨rfl, rfl, rfl⟩, rfl, rfl⟩, by simp [Pc.givesUp]⟩
  | case10 => rintro ⟨⟩
  | _ =>
    rintro ⟨⟩
    exact .inl ⟨by simp, ⟨_, ⟨rfl, rfl, rfl⟩, rfl, rfl⟩, fun _ => ⟨rfl, rfl⟩⟩

/-- A call of the application or a status of the transport begins a call at most, and nothing in a
closed client. -/
def Begins (c c' : Client) : Prop :=
  (∃ more, Tacit (c.calls ++ more) c c') ∧ (c.closed = true → c' = c)

theorem begins_refl (c : Client) : Begins c c :=
  ⟨⟨[], ⟨rfl, rfl, rfl⟩, rfl, by simp⟩, fun _ => rfl⟩

theorem begins_connect (c : Client) : Begins c c.connect := by
  unfold Client.connect
  split
  · exact begins_refl c
  · next hopen =>
    split
    · exact begins_refl c
    · rcases setState_eq c .connecting with ⟨emitted, hset⟩
      rw [hset]
      exact ⟨⟨_, ⟨rfl, rfl, rfl⟩, rfl, rfl⟩, fun hc => absurd hc hopen⟩

theorem begins_onStatus (c : Client) (final : Bool) : Begins c (c.onStatus final) := by
  unfold Client.onStatus
  split
  · exact begins_refl c
  · next hopen =>
    split
    · rcases setState_eq c .disconnected with ⟨emitted, hset⟩
      rw [hset]
      exact ⟨⟨[], ⟨rfl, rfl, rfl⟩, rfl, by simp⟩, fun hc => absurd hc hopen⟩
    · unfold Client.reconnect
      split
      · exact begins_refl c
      · rcases setState_eq { c with busy := true } .reconnecting with ⟨emitted, hset⟩
        rw [hset]
        exact ⟨⟨_, ⟨rfl, rfl, rfl⟩, rfl, rfl⟩, fun hc => absurd hc hopen⟩

theorem step_cases (h : step opts c e = some c') :
    Begins c c' ∨ c' = c.close ∨ (0 < c.closing ∧ c' = c.closeDone) ∨
      (0 < c.closing ∧ c' = { c with closing := c.closing - 1 }) ∨
      ∃ i o call, e = .settles i o ∧ c.calls[i]? = some call ∧ resume opts i c call o = some c' := by
  cases e with
  | connect =>
    cases h
    exact .inl (begins_connect c)
  | status final =>
    simp only [step, Option.ite_none_right_eq_some, Option.some.injEq] at h
    exact .inl (h.2 ▸ begins_onStatus c final)
  | close => exact .inr (.inl (Option.some.inj h).symm)
  | closeSettles outcome =>
    cases outcome with
    | resolved =>
      simp only [step, Option.ite_none_right_eq_some, Option.some.injEq] at h
      exact .inr (.inr (.inl ⟨h.1, h.2.symm⟩))
    | rejected =>
      simp only [step, Option.ite_none_right_eq_some, Option.some.injEq] at h
      exact .inr (.inr (.inr (.inl ⟨h.1, h.2.symm⟩)))
  | settles i outcome =>
    rcases Option.bind_eq_some_iff.1 h with ⟨call, hcall, hresume⟩
    exact .inr (.inr (.inr (.inr ⟨i, outcome, call, rfl, hcall, hresume⟩)))

/-! ## The flags -/

theorem sameFlags_resume (h : resume opts i c call o = some c') : SameFlags c c' := by
  rcases resume_cases h with ⟨_, ⟨_, hmoved⟩, _⟩ | rfl | ⟨kind, _, rfl⟩
  · exact hmoved.toSameFlags
  · exact ⟨rfl, rfl, rfl⟩
  · cases hclosed : c.closed with
    | true =>
      rw [established_of_closed hclosed]
      exact ⟨rfl, rfl, rfl⟩
    | false => exact (established_of_open hclosed kind i).toSameFlags

theorem step_flags (h : step opts c e = some c') :
    SameFlags c c' ∨ c' = c.close ∨ (0 < c.closing ∧ c' = c.closeDone) ∨
      (0 < c.closing ∧ c' = { c with closing := c.closing - 1 }) := by
  rcases step_cases h with ⟨⟨_, hbegun⟩, _⟩ | hclose | hdone | hfailed | ⟨_, _, _, _, _, hresume⟩
  · exact .inl hbegun.toSameFlags
  · exact .inr (.inl hclose)
  · exact .inr (.inr (.inl hdone))
  · exact .inr (.inr (.inr hfailed))
  · exact .inl (sameFlags_resume hresume)

theorem closeDone_eq (c : Client) : ∃ emitted, c.closeDone =
    { c with closing := c.closing - 1, completed := true, state := .closed, emitted := emitted } :=
  setState_eq _ _

structure Flagged (c : Client) : Prop where
  closing : 0 < c.closing → c.closed = true
  completed : c.completed = true → c.closed = true

theorem flagged_step (hc : Flagged c) (h : step opts c e = some c') : Flagged c' := by
  rcases step_flags h with hsame | rfl | ⟨hpending, rfl⟩ | ⟨hpending, rfl⟩
  · refine ⟨fun hp => ?_, fun hd => ?_⟩
    · exact hsame.closed.trans (hc.closing (hsame.closing ▸ hp))
    · exact hsame.closed.trans (hc.completed (hsame.completed ▸ hd))
  · exact ⟨fun _ => rfl, fun _ => rfl⟩
  · rcases closeDone_eq c with ⟨emitted, hdone⟩
    rw [hdone]
    exact ⟨fun _ => hc.closing hpending, fun _ => hc.closing hpending⟩
  · exact ⟨fun _ => hc.closing hpending, hc.completed⟩

/-! ## A closed client -/

theorem Quiet.refl (c : Client) : Quiet c c := ⟨rfl, rfl⟩

theorem quiet_or_closeDone (hclosed : c.closed = true) (hkeeps : givesUp opts c e = false)
    (h : step opts c e = some c') : Quiet c c' ∨ c' = c.closeDone := by
  rcases step_cases h with ⟨_, hsame⟩ | rfl | ⟨_, hdone⟩ | ⟨_, rfl⟩ | ⟨i, o, call, rfl, hcall, hresume⟩
  · exact .inl (hsame hclosed ▸ Quiet.refl c)
  · exact .inl ⟨rfl, rfl⟩
  · exact .inr hdone
  · exact .inl ⟨rfl, rfl⟩
  · left
    rcases resume_cases hresume with ⟨_, _, hquiet⟩ | rfl | ⟨kind, _, rfl⟩
    · exact hquiet (by simpa [givesUp, hcall] using hkeeps)
    · exact ⟨rfl, rfl⟩
    · rw [established_of_closed hclosed]
      exact ⟨rfl, rfl⟩

theorem quiet_closeDone (h : c.state = .closed) : Quiet c c.closeDone := by
  have hsame : c.closeDone = { c with closing := c.closing - 1, completed := true } := if_pos h.symm
  rw [hsame]
  exact ⟨rfl, rfl⟩

/-- The invariant of the runs in time: a completed `close` leaves the state at `closed`. -/
structure Final (c : Client) : Prop where
  flagged : Flagged c
  state : c.completed = true → c.state = .closed

theorem quiet_step (hc : Final c) (hdone : c.completed = true) (htime : InTime opts c e)
    (h : step opts c e = some c') : Quiet c c' := by
  rcases quiet_or_closeDone (hc.flagged.completed hdone) (htime hdone) h with hquiet | rfl
  · exact hquiet
  · exact quiet_closeDone (hc.state hdone)

theorem completed_step (h : step opts c e = some c') :
    c'.completed = c.completed ∨ c'.completed = true ∧ c'.state = .closed := by
  rcases step_flags h with hsame | rfl | ⟨_, rfl⟩ | ⟨_, rfl⟩
  · exact .inl hsame.completed
  · exact .inl rfl
  · rcases closeDone_eq c with ⟨emitted, hdone⟩
    rw [hdone]
    exact .inr ⟨rfl, rfl⟩
  · exact .inl rfl

theorem final_step (hc : Final c) (htime : InTime opts c e) (h : step opts c e = some c') :
    Final c' := by
  refine ⟨flagged_step hc.flagged h, fun hdone' => ?_⟩
  by_cases hdone : c.completed = true
  · exact (quiet_step hc hdone htime h).state.trans (hc.state hdone)
  · -- the step completes the first `close`
    rcases completed_step h with hsame | ⟨_, hstate⟩
    · exact absurd (hsame.symm.trans hdone') hdone
    · exact hstate

theorem final_init : Final {} := ⟨⟨fun h => absurd h (by decide), fun h => absurd h (by decide)⟩,
  fun h => absurd h (by decide)⟩

/-- `c'` comes after `c`, whose `close` has completed, and nothing was heard of the state since. -/
structure Rests (c c' : Client) : Prop where
  final : Final c'
  completed : c'.completed = true
  quiet : Quiet c c'

theorem rests_run (hc : Final c) (hdone : c.completed = true)
    (h : Trace.Reaches (step opts) (InTime opts) c c') : Rests c c' := by
  refine h.invariant ⟨hc, hdone, Quiet.refl c⟩ ?_
  intro s s' e hs htime hstep
  have hnext : Quiet s s' := quiet_step hs.final hs.completed htime hstep
  have hdone' : s'.completed = true := (completed_step hstep).elim (·.trans hs.completed) (·.1)
  exact ⟨final_step hs.final htime hstep, hdone',
    hnext.state.trans hs.quiet.state, hnext.events.trans hs.quiet.events⟩

/-! ## Late connections -/

def Followed (wire : List Link) (n : Nat) : Prop :=
  ∃ m, n < m ∧ wire[m]? = some .down

/-- A call of `connect` or `reconnect` is about to hear that `establish` has returned. -/
def Awaited (c : Client) : Prop :=
  ∃ (i : Nat) (kind : Kind), c.calls[i]? = some (Call.mk kind .returned)

/-- Every late connection is followed by a `transport.close()`, or the call that opened one is about
to make it. -/
structure Tidy (c : Client) : Prop where
  late : ∀ n : Nat, c.wire[n]? = some (Link.up true) → c.closed = true
  followed : ∀ n : Nat, c.wire[n]? = some (Link.up true) → Followed c.wire n ∨ Awaited c

theorem Tidy.same (hc : Tidy c) (hwire : c'.wire = c.wire) (hclosed : c'.closed = c.closed)
    (hawaited : Awaited c → Awaited c') : Tidy c' := by
  refine ⟨fun n hn => ?_, fun n hn => ?_⟩
  · exact hclosed.trans (hc.late n (hwire ▸ hn))
  · rw [hwire] at hn ⊢
    exact (hc.followed n hn).imp_right hawaited

theorem Tidy.down (hwire : c'.wire = c.wire ++ [.down]) (hclosed : c'.closed = true) : Tidy c' := by
  refine ⟨fun _ _ => hclosed, fun n hn => .inl ?_⟩
  rw [hwire] at hn ⊢
  rcases Nat.lt_or_ge n c.wire.length with hlt | hge
  · exact ⟨c.wire.length, hlt, by simp⟩
  · rw [List.getElem?_append_right hge] at hn
    cases hk : n - c.wire.length <;> simp [hk] at hn

theorem Tidy.begun (hc : Tidy c) {more : List Call} (h : Tacit (c.calls ++ more) c c') : Tidy c' := by
  refine hc.same h.wire h.closed ?_
  rintro ⟨i, kind, hi⟩
  refine ⟨i, kind, ?_⟩
  rw [h.calls, List.getElem?_append_left (List.getElem?_eq_some_iff.1 hi).1, hi]

theorem Tidy.moved (hc : Tidy c) (hcall : c.calls[i]? = some call) (hpc : call.pc ≠ .returned) {pc : Pc}
    (h : Tacit (c.moveTo i pc).calls c c') : Tidy c' := by
  refine hc.same h.wire h.closed ?_
  rintro ⟨j, kind, hj⟩
  have hne : i ≠ j := by
    rintro rfl
    rw [hcall] at hj
    exact hpc (congrArg Call.pc (Option.some.inj hj))
  refine ⟨j, kind, ?_⟩
  rw [h.calls]
  simp [Client.moveTo, hne, hj]

theorem tidy_linked (hc : Tidy c) (hcall : c.calls[i]? = some call) : Tidy (c.linked i) := by
  have hawaited : Awaited (c.linked i) :=
    ⟨i, call.kind, by simp [Client.linked, Client.moveTo, hcall]⟩
  refine ⟨fun n hn => ?_, fun _ _ => .inr hawaited⟩
  rcases Nat.lt_or_ge n c.wire.length with hlt | hge
  · have hold : c.wire[n]? = some (Link.up true) := by
      simpa [Client.linked, Client.moveTo, List.getElem?_append_left hlt] using hn
    exact hc.late n hold
  · -- the new connection is late because the flag is set
    have hnew : [Link.up c.closed][n - c.wire.length]? = some (Link.up true) := by
      simpa [Client.linked, Client.moveTo, List.getElem?_append_right hge] using hn
    cases hk : n - c.wire.length with
    | zero =>
      have hset : c.closed = true := by simpa [hk] using hnew
      exact hset
    | succ k => simp [hk] at hnew

theorem tidy_established (hc : Tidy c) (kind : Kind) (i : Nat) : Tidy (c.established kind i) := by
  cases hclosed : c.closed with
  | true =>
    rw [established_of_closed hclosed]
    exact Tidy.down rfl hclosed
  | false =>
    -- nothing on the wire is late yet
    have hwire := (established_of_open hclosed kind i).wire
    refine ⟨fun n hn => ?_, fun n hn => ?_⟩
    all_goals
      rw [hwire] at hn
      exact absurd (hc.late n hn) (by simp [hclosed])

theorem tidy_step (hc : Tidy c) (h : step opts c e = some c') : Tidy c' := by
  rcases step_cases h with ⟨⟨_, hbegun⟩, _⟩ | rfl | ⟨_, rfl⟩ | ⟨_, rfl⟩ | ⟨i, o, call, _, hcall, hresume⟩
  · exact hc.begun hbegun
  · exact Tidy.down rfl rfl
  · rcases closeDone_eq c with ⟨emitted, hdone⟩
    rw [hdone]
    exact hc.same rfl rfl id
  · exact hc.same rfl rfl id
  · rcases resume_cases hresume with ⟨hpc, ⟨_, hmoved⟩, _⟩ | rfl | ⟨kind, _, rfl⟩
    · exact hc.moved hcall hpc hmoved
    · exact tidy_linked hc hcall
    · exact tidy_established hc kind i

theorem tidy_init : Tidy {} := by
  refine ⟨fun n hn => ?_, fun n hn => ?_⟩
  all_goals simp at hn

theorem awaited_closes (opts : Options) (hclosed : c.closed = true) {kind : Kind}
    (h : c.calls[i]? = some ⟨kind, .returned⟩) :
    ∃ c', step opts c (.settles i .resolved) = some c' ∧ c'.wire = c.wire ++ [.down] := by
  refine ⟨c.established kind i, ?_, ?_⟩
  · simp [step, h, resume]
  · rw [established_of_closed hclosed]

/-- Closed is final, in every run in which no call gives up after a `close` has completed: the state is
`closed`, it stays so, and no further `state` event is emitted. And in every run whatsoever each
connection that is established after `close` was called is followed by a `transport.close()`; the call
that opened the latest ones may still be on its way to it. -/
theorem closed_is_final (opts : Options) :
    (∀ c, Trace.Reaches (step opts) (InTime opts) {} c → c.completed = true →
      c.state = .closed ∧
      ∀ c', Trace.Reaches (step opts) (InTime opts) c c' →
        c'.state = .closed ∧ c'.stateEvents = c.stateEvents) ∧
    ∀ c, Trace.Reaches (step opts) (fun _ _ => True) {} c →
      ∀ n : Nat, c.wire[n]? = some (.up true) →
        Followed c.wire n ∨
        ∃ (i : Nat) (kind : Kind) (c' : Client), c.calls[i]? = some ⟨kind, .returned⟩ ∧
          step opts c (.settles i .resolved) = some c' ∧ c'.wire = c.wire ++ [.down] := by
  refine ⟨fun c hrun hdone => ?_, fun c hrun n hn => ?_⟩
  · have hfinal : Final c := hrun.invariant final_init fun hs htime hstep => final_step hs htime hstep
    refine ⟨hfinal.state hdone, fun c' hrest => ?_⟩
    have hrests : Rests c c' := rests_run hfinal hdone hrest
    exact ⟨hrests.final.state hrests.completed, hrests.quiet.events⟩
  · have htidy : Tidy c := hrun.invariant tidy_init fun hs _ hstep => tidy_step hs hstep
    refine (htidy.followed n hn).imp_right ?_
    rintro ⟨i, kind, hcall⟩
    rcases awaited_closes opts (htidy.late n hn) hcall with ⟨c', hstep, hwire⟩
    exact ⟨i, kind, c', hcall, hstep, hwire⟩

def quickOptions : Options := { authBackoffMs := some [0], connectBackoffMs := some [0, 0] }

/-- A connection established after `close` completed: the state has been `closed` from then on, and the
resumption of `connect` closes the connection. -/
theorem closed_is_final_midConnect :
    ∃ c c' : Client,
      c.completed = true ∧ c.state = .closed ∧ c'.wire[1]? = some (.up true) ∧
      (c'.state = .closed ∧ c'.stateEvents = c.stateEvents) ∧
      (Followed c'.wire 1 ∨
        ∃ (i : Nat) (kind : Kind) (c'' : Client), c'.calls[i]? = some ⟨kind, .returned⟩ ∧
          step quickOptions c' (.settles i .resolved) = some c'' ∧
          c''.wire = c'.wire ++ [.down]) := by
  have hrun : (Trace.execute (step quickOptions) (InTime quickOptions)
      [.connect, .settles 0 .resolved, .settles 0 .resolved, .close, .closeSettles .resolved]
      {}).map (fun c => (c.completed, c.calls, c.wire)) =
        some (true, [⟨.connect, .linking 0⟩], [.down]) := by decide
  rcases Trace.exists_of_execute hrun with ⟨c, hc, hfacts⟩
  simp only [Prod.mk.injEq] at hfacts
  rcases hfacts with ⟨hdone, hcalls, hwire⟩
  -- the transport connects now, one step later
  have hstep : step quickOptions c (.settles 0 .resolved) = some (c.linked 0) := by
    simp [step, hcalls, resume]
  have htime : InTime quickOptions c (.settles 0 .resolved) := by
    intro _
    simp [givesUp, hcalls, Pc.givesUp]
  have hnext : Trace.Reaches (step quickOptions) (InTime quickOptions) c (c.linked 0) :=
    Trace.Reaches.start.tail htime hstep
  rcases (closed_is_final quickOptions).1 c hc hdone with ⟨hstate, hlater⟩
  have hclosed : c.closed = true := by
    have hfinal : Final c := hc.invariant final_init fun hs ht hst => final_step hs ht hst
    exact hfinal.flagged.completed hdone
  have hlate : (c.linked 0).wire[1]? = some (.up true) := by
    simp [Client.linked, Client.moveTo, hwire, hclosed]
  have hany : Trace.Reaches (step quickOptions) (fun _ _ => True) {} (c.linked 0) :=
    (hc.tail htime hstep).mono fun _ _ _ => trivial
  exact ⟨c, c.linked 0, hdone, hstate, hlate, hlater _ hnext,
    (closed_is_final quickOptions).2 _ hany 1 hlate⟩

/-- Not in every run: a token that is refused after `close` has completed moves a closed client to
`failed`, since `tokenWithRetry` does not look at the flag. -/
theorem closed_not_final :
    ¬ ∀ (opts : Options) (c : Client), Trace.Reaches (step opts) (fun _ _ => True) {} c →
      c.completed = true → c.state = .closed := by
  intro hfinal
  have hrun : (Trace.execute (step quickOptions) (fun _ _ => True)
      [.connect, .settles 0 .resolved, .close, .closeSettles .resolved, .settles 0 .rejected]
      {}).map (fun c => (c.completed, c.state)) = some (true, .failed) := by decide
  rcases Trace.exists_of_execute hrun with ⟨c, hc, hfacts⟩
  simp only [Prod.mk.injEq] at hfacts
  rcases hfacts with ⟨hdone, hstate⟩
  have hclosed : c.state = .closed := hfinal quickOptions c hc hdone
  rw [hstate] at hclosed
  cases hclosed

end Connection
end RelayPoint.Sdk
