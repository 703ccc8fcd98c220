import RelayPoint.Signaling.Machine

/-!
# Router — `HandleCommand` as a program over the machine

The decisions of the append loops are pure functions of the locked state (`precheck`, `checkFact`,
`onCommit`, …); the programs string them together with the operations of `Machine`.  A loop with
attempt counter `attempt` and bound `maxRefold` is a recursion on the attempts that are left.
-/

namespace RelayPoint.Signaling

open Concurrency

/-! ## Routers and calls -/

structure Router where
  id : Nat
  devMode : Bool
  maxResults : Nat
  maxRefold : Nat
  deriving DecidableEq, Repr

/-- One call of `HandleCommand`: `data` and `json` are the outcomes of decoding the payload and, for
a privileged command, its `Data` field. -/
structure Call where
  router : Router
  id : Identity
  subject : String
  data : Option Command
  json : Option ParticipationData
  deriving DecidableEq, Repr

inductive Request where
  | refuse (res : CommandResult)
  | ordinary (c : Ordinary)
  | privileged (p : Privileged)

def Call.request (call : Call) : Request :=
  match classify call.router.devMode call.id call.subject call.data with
  | .refuse res => .refuse res
  | .ordinary c => .ordinary c
  | .privileged cand =>
    match authorize cand call.json with
    | .error reason => .refuse (rejected cand.cmd.commandId reason)
    | .ok p => .privileged p

def Call.Meets (okOrdinary : Ordinary → Prop) (okPrivileged : Privileged → Prop) (call : Call) :
    Prop :=
  match call.request with
  | .refuse _ => True
  | .ordinary c => okOrdinary c
  | .privileged p => okPrivileged p

theorem Call.meets_trivial (call : Call) : call.Meets (fun _ => True) fun _ => True := by
  unfold Meets
  split
  all_goals trivial

variable {call : Call} {c : Ordinary} {p : Privileged}

theorem Call.request_ordinary (h : call.request = .ordinary c) :
    c.From call.router.devMode call.id call.subject call.data := by
  unfold request at h
  split at h
  · cases h
  · next hcl =>
      cases h
      exact classify_ordinary hcl
  · split at h
    · cases h
    · cases h

theorem Call.request_privileged (h : call.request = .privileged p) :
    p.toCandidate.From call.router.devMode call.id call.subject call.data := by
  unfold request at h
  split at h
  · cases h
  · cases h
  · next cand hcl =>
      split at h
      · cases h
      · next hauth =>
          cases h
          rw [authorize_ok hauth]
          exact classify_privileged hcl

theorem Call.ordinary_names {t i suffix : String}
    (hnamed : parseCmdSubject call.subject = some (t, i, suffix)) (h : call.request = .ordinary c) :
    t = c.tenant ∧ i = c.iid ∧ suffix = c.suffix := by
  simpa using hnamed.symm.trans (request_ordinary h).named

theorem Call.privileged_names {t i suffix : String}
    (hnamed : parseCmdSubject call.subject = some (t, i, suffix)) (h : call.request = .privileged p) :
    t = p.tenant ∧ i = p.iid ∧ suffix = p.actor := by
  simpa using hnamed.symm.trans (request_privileged h).named

abbrev Program (α : Type) :=
  Prog Ans α

/-! ## Operations as programs -/

def append (author : Author) (subject : String) (ev : Event) (dedupID : String) (expected : Nat) :
    Program (Except AppendError (Bool × Nat)) :=
  Prog.perform (Op.append author subject ev dedupID expected)

def replay (site : ReplaySite) (subject : String) : Program (Option (List Event × Nat)) :=
  Prog.perform (Op.replay site subject)

def now : Program Nat :=
  Prog.perform Op.now

def newID : Program String :=
  Prog.perform Op.newID

def interGet (r : Nat) (key : String) : Program (Option Nat) :=
  Prog.perform (Op.interGet r key)

def interPut (r : Nat) (key : String) (st : InteractionState) : Program Nat :=
  Prog.perform (Op.interPut r key st)

def interDelete (r : Nat) (key : String) : Program Unit :=
  Prog.perform (Op.interDelete r key)

def loadJoin (r : Nat) (key : String) : Program Flight :=
  Prog.perform (Op.loadJoin r key)

def loadWait (f : Nat) : Program (Option Nat) :=
  Prog.perform (Op.loadWait f)

def loadDone (r : Nat) (key : String) (f : Nat) (res : Option Nat) : Program Unit :=
  Prog.perform (Op.loadDone r key f res)

def lock (site : LockSite) (o : Nat) : Program InteractionState :=
  Prog.perform (Op.lock site o)

def unlock (o : Nat) (st : InteractionState) : Program Unit :=
  Prog.perform (Op.unlock o st)

/-! ## State access -/

def rebuild (r : Router) (site : ReplaySite) (tenant iid : String) :
    Program (Option InteractionState) := do
  match ← replay site (logSubjectFor tenant iid) with
  | none => return none
  | some (facts, last) => return some (InteractionState.rebuildFrom facts last r.maxResults)

def evict (r : Router) (tenant iid : String) : Program Unit :=
  interDelete r.id (stateKey tenant iid)

def evictWhen (r : Router) (tenant iid : String) (ended : Bool) : Program Unit :=
  if ended then evict r tenant iid else pure ()

def loadState (r : Router) (tenant iid : String) : Program (Option Nat) := do
  match ← interGet r.id (stateKey tenant iid) with
  | some o => return some o
  | none =>
    match ← rebuild r .load tenant iid with
    | none => return none
    | some built =>
      let o ← interPut r.id (stateKey tenant iid) built
      return some o

def getState (r : Router) (tenant iid : String) : Program (Option Nat) := do
  match ← interGet r.id (stateKey tenant iid) with
  | some o => return some o
  | none =>
    match ← loadJoin r.id (stateKey tenant iid) with
    | .join f => loadWait f
    | .lead f =>
      let res ← loadState r tenant iid
      loadDone r.id (stateKey tenant iid) f res
      return res

/-! ## Replies -/

def conflictReason : String := "conflict: command_id reused with a different payload"

def quote (s : String) : String :=
  "\"" ++ String.ofList (s.toList.flatMap escape) ++ "\""
where
  escape (c : Char) : List Char :=
    if c = '"' then ['\\', '"']
    else if c = '\\' then ['\\', '\\']
    else if c.toNat = 7 then ['\\', 'a']
    else if c.toNat = 8 then ['\\', 'b']
    else if c.toNat = 12 then ['\\', 'f']
    else if c = '\n' then ['\\', 'n']
    else if c = '\r' then ['\\', 'r']
    else if c = '\t' then ['\\', 't']
    else if c.toNat = 11 then ['\\', 'v']
    else if c.toNat < 32 ∨ c.toNat = 127 then
      ['\\', 'x', Sha256.hexDigit (c.toNat / 16), Sha256.hexDigit (c.toNat % 16)]
    else [c]

def illegalReason (cmdType : String) (status : Lifecycle) : String :=
  "illegal transition " ++ quote cmdType ++ " from state " ++ quote status.text

/-! ## Ordinary commands -/

namespace Ordinary

variable (c : Ordinary)

def subject : String :=
  logSubjectFor c.tenant c.iid

def key : String :=
  stateKey c.tenant c.iid

def payloadHash : String :=
  hashPayload c.cmd

def dedupID : String :=
  Signaling.dedupID c.tenant c.iid c.cmd.commandId

/-- Every authenticated write except `interaction.started` needs an open membership interval; a
trusted backend is exempt. -/
def gateParticipation : Bool :=
  isAuthenticated c.ctx && c.ctx.role ≠ roleTrustedBackend && c.cmd.type ≠ "interaction.started"

/-- The checks behind the dedup lookup.  An illegal transition is remembered as a rejection. -/
def gates (max : Nat) (st : InteractionState) : Option (CommandResult × InteractionState) :=
  if c.gateParticipation && !st.part.isParticipantNow c.suffix then
    some (rejected c.cmd.commandId "not_a_participant", st)
  else if !legalTransition st.status c.cmd.type then
    let res := rejected c.cmd.commandId (illegalReason c.cmd.type st.status)
    some (res, st.putResult c.cmd.commandId ⟨c.payloadHash, res⟩ max)
  else none

/-- The head of the append loop: a reply that needs no append, with the state it leaves. -/
def precheck (max : Nat) (st : InteractionState) : Option (CommandResult × InteractionState) :=
  match st.results.lookup c.cmd.commandId with
  | some prev =>
    if prev.payloadHash = "" then some (prev.result, st)
    else if prev.payloadHash ≠ c.payloadHash then
      some (rejected c.cmd.commandId conflictReason, st)
    else if prev.result.status = .accepted then some (prev.result, st)
    -- A remembered rejection of the same payload is judged again.
    else c.gates max st
  | none => c.gates max st

variable {c} {max : Nat} {st st' : InteractionState} {res : CommandResult}

theorem gates_none (h : c.gates max st = none) :
    (c.gateParticipation = true → st.part.isParticipantNow c.suffix = true) ∧
      legalTransition st.status c.cmd.type = true := by
  unfold gates at h
  split at h
  · cases h
  · rename_i hgate
    split at h
    · cases h
    · rename_i hlegal
      exact ⟨by simpa using hgate, by simpa using hlegal⟩

theorem precheck_none (h : c.precheck max st = none) :
    (c.gateParticipation = true → st.part.isParticipantNow c.suffix = true) ∧
      legalTransition st.status c.cmd.type = true := by
  unfold precheck at h
  split at h
  · split at h
    · cases h
    · split at h
      · cases h
      · split at h
        · cases h
        · exact gates_none h
  · exact gates_none h

theorem gates_some (h : c.gates max st = some (res, st')) :
    (res = rejected c.cmd.commandId "not_a_participant" ∧ st' = st) ∨
      (res = rejected c.cmd.commandId (illegalReason c.cmd.type st.status) ∧
        st' = st.putResult c.cmd.commandId ⟨c.payloadHash, res⟩ max) := by
  unfold gates at h
  split at h
  · cases h
    exact .inl ⟨rfl, rfl⟩
  · split at h
    · cases h
      exact .inr ⟨rfl, rfl⟩
    · cases h

theorem precheck_some (h : c.precheck max st = some (res, st')) :
    (∃ prev, st.results.lookup c.cmd.commandId = some prev ∧ st' = st ∧
      ((prev.payloadHash = "" ∧ res = prev.result) ∨
        (prev.payloadHash ≠ c.payloadHash ∧ res = rejected c.cmd.commandId conflictReason) ∨
        (prev.payloadHash = c.payloadHash ∧ res = prev.result))) ∨
      c.gates max st = some (res, st') := by
  unfold precheck at h
  split at h
  · rename_i prev hprev
    split at h
    · rename_i hlegacy
      cases h
      exact .inl ⟨prev, hprev, rfl, .inl ⟨hlegacy, rfl⟩⟩
    · split at h
      · rename_i hne
        cases h
        exact .inl ⟨prev, hprev, rfl, .inr (.inl ⟨hne, rfl⟩)⟩
      · rename_i heq
        split at h
        · cases h
          exact .inl ⟨prev, hprev, rfl, .inr (.inr ⟨not_not.1 heq, rfl⟩)⟩
        · exact .inr h
  · exact .inr h

theorem precheck_state (h : c.precheck max st = some (res, st')) :
    st'.core = st.core ∧ st'.streamSeq = st.streamSeq := by
  rcases precheck_some h with ⟨_, _, rfl, _⟩ | hgates
  · exact ⟨rfl, rfl⟩
  · rcases gates_some hgates with ⟨_, rfl⟩ | ⟨_, rfl⟩
    all_goals exact ⟨rfl, rfl⟩

variable (c)

def event (st : InteractionState) (eventId : String) (at_ : Nat) : Event where
  schema := schemaV1
  eventType := c.cmd.type
  eventId := eventId
  sequence := st.seq + 1
  occurredAt := at_
  tenantId := c.tenant
  actorId := c.cmd.actorId
  medium := orDefault c.cmd.medium "chat"
  commandId := c.cmd.commandId
  payloadHash := c.payloadHash
  causedBy := c.cmd.commandId
  refId := c.cmd.refId
  data := c.cmd.data
  commandedBy := ""
  reason := ""
  requestId := ""

def onCommit (max : Nat) (st : InteractionState) (committedSeq : Nat) : InteractionState :=
  { st with
    seq := st.seq + 1
    streamSeq := committedSeq
    status := transition st.status c.cmd.type
    results := st.results.put c.cmd.commandId ⟨c.payloadHash, accepted c.cmd.commandId⟩ max }

def onDuplicate (max : Nat) (st fresh : InteractionState) : CommandResult × InteractionState :=
  let st := st.refold fresh max
  match st.results.lookup c.cmd.commandId with
  | some committed =>
    if committed.payloadHash ≠ "" ∧ committed.payloadHash ≠ c.payloadHash then
      (rejected c.cmd.commandId conflictReason, st)
    else (committed.result, st)
  | none =>
    (accepted c.cmd.commandId,
      st.putResult c.cmd.commandId ⟨c.payloadHash, accepted c.cmd.commandId⟩ max)

theorem onDuplicate_cases (max : Nat) (st fresh : InteractionState) :
    (∃ e, (st.refold fresh max).results.lookup c.cmd.commandId = some e ∧ e.payloadHash ≠ "" ∧
      e.payloadHash ≠ c.payloadHash ∧
      c.onDuplicate max st fresh =
        (rejected c.cmd.commandId conflictReason, st.refold fresh max)) ∨
    (∃ e, (st.refold fresh max).results.lookup c.cmd.commandId = some e ∧
      (e.payloadHash = "" ∨ e.payloadHash = c.payloadHash) ∧
      c.onDuplicate max st fresh = (e.result, st.refold fresh max)) ∨
    ((st.refold fresh max).results.lookup c.cmd.commandId = none ∧
      c.onDuplicate max st fresh = (accepted c.cmd.commandId,
        (st.refold fresh max).putResult c.cmd.commandId
          ⟨c.payloadHash, accepted c.cmd.commandId⟩ max)) := by
  cases hl : (st.refold fresh max).results.lookup c.cmd.commandId with
  | some e =>
    by_cases hne : e.payloadHash ≠ "" ∧ e.payloadHash ≠ c.payloadHash
    · exact .inl ⟨e, rfl, hne.1, hne.2, by simp [onDuplicate, hl, hne]⟩
    · refine .inr (.inl ⟨e, rfl, ?_, ?_⟩)
      · by_cases hempty : e.payloadHash = ""
        · exact .inl hempty
        · exact .inr (not_not.1 fun h => hne ⟨hempty, h⟩)
      · simp only [onDuplicate, hl]
        exact if_neg hne
  | none => exact .inr (.inr ⟨rfl, by simp [onDuplicate, hl]⟩)

theorem onDuplicate_state (max : Nat) (st fresh : InteractionState) :
    (c.onDuplicate max st fresh).2.core = fresh.core ∧
      (c.onDuplicate max st fresh).2.streamSeq = fresh.streamSeq := by
  rcases c.onDuplicate_cases max st fresh with
    ⟨_, _, _, _, h⟩ | ⟨_, _, _, h⟩ | ⟨_, h⟩
  all_goals
    rw [h]
    exact ⟨rfl, rfl⟩

end Ordinary

/-- After a lost ack whose fact turns out to be committed: the counter, the token and the status are
refreshed, the membership, the bindings and the dedup entries are not. -/
def InteractionState.onLostAck (st fresh : InteractionState) : InteractionState :=
  { st with seq := fresh.seq, streamSeq := fresh.streamSeq, status := fresh.status }

def InteractionState.poison (st : InteractionState) : InteractionState :=
  { st with poisoned := true }

abbrev Attempt := InteractionState → Program (CommandResult × InteractionState)

/-- Give up on a state: poison it, so that callers who hold it fail closed, and drop it. -/
def failClosed (r : Router) (tenant iid : String) (st : InteractionState) (res : CommandResult) :
    Program (CommandResult × InteractionState) := do
  evict r tenant iid
  return (res, st.poison)

def onConflict (r : Router) (site : ReplaySite) (tenant iid commandId : String)
    (st : InteractionState)
    (retry : Option (InteractionState → Program (CommandResult × InteractionState))) :
    Program (CommandResult × InteractionState) := do
  match ← rebuild r site tenant iid, retry with
  | some fresh, some again => again (st.refold fresh r.maxResults)
  | _, _ => failClosed r tenant iid st (rejected commandId "lost concurrent append — retry")

def attempt (r : Router) (c : Ordinary)
    (retry : Option (InteractionState → Program (CommandResult × InteractionState)))
    (st : InteractionState) : Program (CommandResult × InteractionState) := do
  match c.precheck r.maxResults st with
  | some out => return out
  | none =>
    let eventId ← newID
    let at_ ← now
    match ← append ⟨c.ctx, none⟩ c.subject (c.event st eventId at_) c.dedupID st.streamSeq with
    | .error .occConflict =>
      onConflict r (.refold r.maxResults st c) c.tenant c.iid c.cmd.commandId st retry
    | .error .other => do
      -- The append may have committed before the ack was lost.
      let fresh? ← rebuild r (.lostAck r.maxResults st c) c.tenant c.iid
      match fresh?, fresh?.bind fun fresh => fresh.results.lookup c.cmd.commandId with
      | some fresh, some prev => return (prev.result, st.onLostAck fresh)
      | _, _ =>
        failClosed r c.tenant c.iid st
          (rejected c.cmd.commandId "log append failed — retry")
    | .ok (true, _) => do
      match ← rebuild r (.duplicate r.maxResults st c) c.tenant c.iid with
      | none => failClosed r c.tenant c.iid st (accepted c.cmd.commandId)
      | some fresh => return c.onDuplicate r.maxResults st fresh
    | .ok (false, committedSeq) => do
      let st := c.onCommit r.maxResults st committedSeq
      evictWhen r c.tenant c.iid (st.status = .ended)
      return (accepted c.cmd.commandId, st)

def appendLoop (r : Router) (c : Ordinary) :
    Nat → InteractionState → Program (CommandResult × InteractionState)
  | 0 => attempt r c none
  | left + 1 => attempt r c (some (appendLoop r c left))

def unavailableReason : String := "state unavailable (log replay failed) — retry"

def poisonedReason : String := "state unavailable — retry"

def handleOrdinary (r : Router) (c : Ordinary) : Program CommandResult := do
  match ← getState r c.tenant c.iid with
  | none => return rejected c.cmd.commandId unavailableReason
  | some o =>
    let st ← lock (.command c) o
    if st.poisoned then
      unlock o st
      return rejected c.cmd.commandId poisonedReason
    else
      let (res, st) ← appendLoop r c r.maxRefold st
      unlock o st
      return res

/-! ## Privileged commands -/

namespace Privileged

variable (p : Privileged)

def subject : String :=
  logSubjectFor p.tenant p.iid

def key : String :=
  stateKey p.tenant p.iid

def subID (f : PlannedFact) : String :=
  p.cmd.commandId ++ ":" ++ f.eventType ++ ":" ++ f.agent

def dedupID (f : PlannedFact) : String :=
  Signaling.dedupID p.tenant p.iid (p.subID f)

def factCommand (f : PlannedFact) : Command where
  commandId := p.subID f
  tenantId := p.tenant
  actorId := f.agent
  type := f.eventType
  medium := p.cmd.medium
  refId := ""
  data := []

def factHash (f : PlannedFact) : String :=
  hashPayload (p.factCommand f)

def factEvent (f : PlannedFact) (st : InteractionState) (eventId : String) (at_ : Nat) : Event where
  schema := schemaV1
  eventType := f.eventType
  eventId := eventId
  sequence := st.seq + 1
  occurredAt := at_
  tenantId := p.tenant
  actorId := f.agent
  medium := orDefault p.cmd.medium "chat"
  commandId := p.subID f
  payloadHash := p.factHash f
  causedBy := p.cmd.commandId
  refId := ""
  data := []
  commandedBy := p.actor
  reason := p.pd.reason
  requestId := p.pd.requestId

/-- Does the binding recorded for the command id hold a sub-fact that this payload does not have? -/
def diverges (st : InteractionState) : Bool :=
  match st.parents.lookup p.cmd.commandId with
  | some recorded => !decide (∀ s ∈ recorded, s ∈ p.facts.map p.subID)
  | none => false

def bindSubs (st : InteractionState) : InteractionState :=
  let recorded := (st.parents.lookup p.cmd.commandId).getD ∅
  { st with parents := st.parents.insert p.cmd.commandId (recorded ∪ (p.facts.map p.subID).toFinset) }

def factGate (f : PlannedFact) (st : InteractionState) : Option CommandResult :=
  if legalTransition st.status f.eventType then none
  else some (rejected (p.subID f) (illegalReason f.eventType st.status))

def checkFact (f : PlannedFact) (st : InteractionState) : Option CommandResult :=
  match st.results.lookup (p.subID f) with
  | some prev =>
    if prev.payloadHash ≠ "" ∧ prev.payloadHash ≠ p.factHash f then
      some (rejected (p.subID f) conflictReason)
    else if prev.result.status = .accepted then some prev.result
    else p.factGate f st
  | none => p.factGate f st

theorem checkFact_none {p : Privileged} {f : PlannedFact} {st : InteractionState}
    (h : p.checkFact f st = none) : legalTransition st.status f.eventType = true := by
  have gate : p.factGate f st = none → legalTransition st.status f.eventType = true := by
    intro hgate
    unfold factGate at hgate
    split at hgate
    · assumption
    · cases hgate
  unfold checkFact at h
  split at h
  · split at h
    · cases h
    · split at h
      · cases h
      · exact gate h
  · exact gate h

theorem checkFact_accepted {p : Privileged} {f : PlannedFact} {st : InteractionState}
    {res : CommandResult} (h : p.checkFact f st = some res) (hacc : res.status = .accepted) :
    ∃ prev, st.results.lookup (p.subID f) = some prev ∧ prev.result.status = .accepted ∧
      (prev.payloadHash = "" ∨ prev.payloadHash = p.factHash f) := by
  have gate : p.factGate f st ≠ some res := by
    intro hgate
    unfold factGate at hgate
    split at hgate
    · cases hgate
    · cases hgate
      simp at hacc
  unfold checkFact at h
  split at h
  · rename_i prev hprev
    split at h
    · cases h
      simp at hacc
    · rename_i hhash
      split at h
      · rename_i hst
        refine ⟨prev, hprev, hst, ?_⟩
        by_cases hempty : prev.payloadHash = ""
        · exact .inl hempty
        · exact .inr (not_not.1 fun hne => hhash ⟨hempty, hne⟩)
      · exact absurd h gate
  · exact absurd h gate

def onAck (max : Nat) (f : PlannedFact) (st : InteractionState) (ev : Event) (committedSeq : Nat) :
    InteractionState :=
  { st with
    seq := st.seq + 1
    streamSeq := committedSeq
    status := transition st.status f.eventType
    part := st.part.applyFact ev
    results := st.results.put (p.subID f) ⟨p.factHash f, accepted (p.subID f)⟩ max }

end Privileged

def attemptFact (r : Router) (p : Privileged) (f : PlannedFact)
    (retry : Option (InteractionState → Program (CommandResult × InteractionState)))
    (st : InteractionState) : Program (CommandResult × InteractionState) := do
  match p.checkFact f st with
  | some res =>
    -- Only a replayed acceptance drops an ended interaction from the cache.
    evictWhen r p.tenant p.iid (res.status = .accepted ∧ st.status = .ended)
    return (res, st)
  | none =>
    let eventId ← newID
    let at_ ← now
    let ev := p.factEvent f st eventId at_
    match ← append ⟨p.ctx, p.payload⟩ p.subject ev (p.dedupID f) st.streamSeq with
    | .error .occConflict =>
      onConflict r (.refoldFact r.maxResults st p f) p.tenant p.iid (p.subID f) st retry
    | .error .other =>
      failClosed r p.tenant p.iid st (rejected (p.subID f) "log append failed — retry")
    | .ok (_, committedSeq) => do
      let st := p.onAck r.maxResults f st ev committedSeq
      evictWhen r p.tenant p.iid (st.status = .ended)
      return (accepted (p.subID f), st)

def factLoop (r : Router) (p : Privileged) (f : PlannedFact) :
    Nat → InteractionState → Program (CommandResult × InteractionState)
  | 0 => attemptFact r p f none
  | left + 1 => attemptFact r p f (some (factLoop r p f left))

def appendParticipationFact (r : Router) (p : Privileged) (f : PlannedFact) :
    Program CommandResult := do
  match ← getState r p.tenant p.iid with
  | none => return rejected (p.subID f) unavailableReason
  | some o =>
    let st ← lock (.fact p f) o
    if st.poisoned then
      unlock o st
      return rejected (p.subID f) poisonedReason
    else
      let (res, st) ← factLoop r p f r.maxRefold st
      unlock o st
      return res

/-- The shape of both calls: get the state, lock it, run a loop unless it is poisoned. -/
def locked (r : Router) (site : LockSite) (tenant iid id : String) (loop : Attempt) :
    Program CommandResult := do
  match ← getState r tenant iid with
  | none => return rejected id unavailableReason
  | some o =>
    let st ← lock site o
    if st.poisoned then
      unlock o st
      return rejected id poisonedReason
    else
      let (res, st) ← loop st
      unlock o st
      return res

theorem appendLoop_induct {r : Router} {P : Attempt → Prop}
    (h : ∀ retry, (∀ again, retry = some again → P again) → P (attempt r c retry)) (left : Nat) :
    P (appendLoop r c left) := by
  induction left with
  | zero => exact h none (by simp)
  | succ left ih => exact h (some _) fun again hagain => Option.some.inj hagain ▸ ih

theorem factLoop_induct {r : Router} {f : PlannedFact} {P : Attempt → Prop}
    (h : ∀ retry, (∀ again, retry = some again → P again) → P (attemptFact r p f retry))
    (left : Nat) : P (factLoop r p f left) := by
  induction left with
  | zero => exact h none (by simp)
  | succ left ih => exact h (some _) fun again hagain => Option.some.inj hagain ▸ ih

/-- Land the facts in order; the first failure ends the command.  `later` says that a fact of this
command has been landed before. -/
def appendFacts (r : Router) (p : Privileged) :
    Bool → List PlannedFact → Program (Option CommandResult)
  | _, [] => return none
  | later, f :: rest => do
    let res ← appendParticipationFact r p f
    if res.status ≠ .accepted then
      return some { res with
        commandId := p.cmd.commandId
        reason := if later then "transfer partially applied (" ++ res.reason ++ ")" else res.reason }
    else appendFacts r p true rest

def handlePrivileged (r : Router) (p : Privileged) : Program CommandResult := do
  match ← getState r p.tenant p.iid with
  | none => return rejected p.cmd.commandId unavailableReason
  | some o =>
    let st ← lock (.parents p) o
    unlock o st
    if p.diverges st then return rejected p.cmd.commandId conflictReason
    else
      match ← appendFacts r p false p.facts with
      | some failed => return failed
      | none => do
        let st ← lock (.bind p) o
        unlock o (p.bindSubs st)
        return accepted p.cmd.commandId

def handleCommand (call : Call) : Program CommandResult :=
  match call.request with
  | .refuse res => return res
  | .ordinary c => handleOrdinary call.router c
  | .privileged p => handlePrivileged call.router p

end RelayPoint.Signaling
