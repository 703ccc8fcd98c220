import RelayPoint.Concurrency.Moves
import RelayPoint.Signaling.LogLaws

/-!
# Rejection — a refused command has appended nothing

A call may attempt many appends before it replies.  An append that is refused or acked as a duplicate
adds nothing to the stream; one that was committed, or of which the call does not know, may have.  So
the question is what a call can still reply after an append of the second kind: it accepts the
command, asks the caller to retry, or says that a transfer was applied in part.
-/

namespace RelayPoint.Signaling

open Concurrency Journal

def Unchanged (steps : List (World × World)) : Prop :=
  ∀ s ∈ steps, s.2.broker.stream = s.1.broker.stream

/-- The reply does not refuse the command, or says that it has to be sent again, or that a part of
it was applied. -/
def Excused (res : CommandResult) : Prop :=
  res.status ≠ .rejected ∨ "retry".toList <:+ res.reason.toList ∨
    "transfer partially applied".toList <+: res.reason.toList

section Notions

variable {α : Type}

def Silent (p : Program α) : Prop :=
  Owns machine (fun steps _ => Unchanged steps) p

def Excusing (reply : α → CommandResult) (p : Program α) : Prop :=
  Owns machine (fun _ a => Excused (reply a)) p

def Blameless (reply : α → CommandResult) (p : Program α) : Prop :=
  Owns machine (fun steps a => Unchanged steps ∨ Excused (reply a)) p

end Notions

theorem unchanged_append {first second : List (World × World)} :
    Unchanged (first ++ second) ↔ Unchanged first ∧ Unchanged second := by
  simp [Unchanged, or_imp, forall_and]

section Rules

variable {α β : Type} {reply : α → CommandResult} {p : Program β} {f : β → Program α}

theorem silent_pure (b : β) : Silent (pure b : Program β) :=
  owns_pure (by simp [Unchanged])

theorem silent_bind (hp : Silent p) (hf : ∀ b, Silent (f b)) : Silent (p >>= f) := by
  refine owns_bind (hp.mono ?_)
  intro first b hfirst
  exact (hf b).mono fun second _ hsecond => unchanged_append.2 ⟨hfirst, hsecond⟩

theorem blameless_pure (a : α) : Blameless reply (pure a) :=
  owns_pure (.inl (by simp [Unchanged]))

theorem Excusing.blameless {p : Program α} (h : Excusing reply p) : Blameless reply p :=
  h.mono fun _ _ => .inr

theorem excusing_bind (hf : ∀ b, Excusing reply (f b)) : Excusing reply (p >>= f) :=
  owns_bind fun _ b _ => hf b

theorem blameless_bind (hp : Silent p) (hf : ∀ b, Blameless reply (f b)) :
    Blameless reply (p >>= f) := by
  refine owns_bind (hp.mono ?_)
  intro first b hfirst
  refine (hf b).mono ?_
  intro second a h
  exact h.imp_left fun hsecond => unchanged_append.2 ⟨hfirst, hsecond⟩

theorem blameless_then {reply' : β → CommandResult} (hp : Blameless reply' p)
    (hf : ∀ b, Silent (f b)) (hreply : ∀ b, Excused (reply' b) → Excusing reply (f b)) :
    Blameless reply (p >>= f) := by
  refine owns_bind (hp.mono ?_)
  intro first b h
  rcases h with hfirst | hexc
  · exact (hf b).mono fun second _ hsecond => .inl (unchanged_append.2 ⟨hfirst, hsecond⟩)
  · exact (hreply b hexc).mono fun _ _ => .inr

end Rules

/-! ## The operations -/

def Op.isAppend : Op → Bool
  | .append .. => true
  | .replay .. | .now | .newID | .interGet .. | .interPut .. | .interDelete .. | .loadJoin ..
  | .loadWait _ | .loadDone .. | .lock .. | .unlock .. => false

def landed : Except AppendError (Bool × Nat) → Bool
  | .ok (duplicate, _) => !duplicate
  | .error .occConflict => false
  | .error .other => true

section Operations

variable {w w' : World} {ch : Choice}
variable {expected : Nat}
variable {m : Msg String String Fact}

theorem stream_offer {b b' : LogStore} {first : Bool} {ack : Ack}
    (h : b.offer first m expected = (ack, b')) (hack : landed (answer ack) = false) :
    b'.stream = b.stream := by
  rcases Broker.offer_cases h with ⟨n, _, _, _, rfl⟩ | ⟨_, rfl⟩ | ⟨_, _, rfl, _⟩
  · rfl
  · rfl
  · simp [answer, landed] at hack

theorem stream_append {a : Except AppendError (Bool × Nat)}
    (h : performAppend w m expected ch = some (a, w')) (ha : landed a = false) :
    w'.broker.stream = w.broker.stream := by
  cases ch with
  | go | dedupFirst =>
    rcases Prod.mk.inj (Option.some.inj h) with ⟨rfl, rfl⟩
    exact stream_offer rfl ha
  | lost | fail =>
    rcases Prod.mk.inj (Option.some.inj h) with ⟨rfl, _⟩
    cases ha
  | _ => cases h

variable {α : Type} {reply : α → CommandResult}

theorem silent_of_within {p : Program α} {Q : α → Prop}
    (h : Prog.Within (·.isAppend = false) (fun _ _ => True) Q p) : Silent p := by
  induction p with
  | ret a => exact silent_pure a
  | call op next ih =>
    refine owns_perform fun w ch a w' hp => ?_
    refine (ih a (h.2 a trivial)).mono fun steps _ hsteps => ?_
    rcases (perform_effect hp).stream with heq | ⟨_, _, _, _, _, rfl, _⟩
    · exact List.forall_mem_cons.2 ⟨heq, hsteps⟩
    · cases h.1

theorem silent_perform {op : Op} (hop : op.isAppend = false) : Silent (Prog.perform op) :=
  silent_of_within ⟨hop, fun _ _ => trivial⟩

theorem blameless_append {author : Author} {subject dedupID : String} {ev : Event}
    {k : Except AppendError (Bool × Nat) → Program α}
    (hconflict : Blameless reply (k (.error .occConflict)))
    (hduplicate : ∀ seq, Blameless reply (k (.ok (true, seq))))
    (hlost : Excusing reply (k (.error .other)))
    (hcommitted : ∀ seq, Excusing reply (k (.ok (false, seq)))) :
    Blameless reply (append author subject ev dedupID expected >>= k) := by
  have hquiet : ∀ w ch a w', perform w (.append author subject ev dedupID expected) ch = some (a, w') →
      landed a = false → Blameless reply (k a) →
      Owns machine (fun steps out => Unchanged ((w, w') :: steps) ∨ Excused (reply out)) (k a) := by
    intro w ch a w' hp ha hk
    refine hk.mono ?_
    intro steps out h
    refine h.imp_left fun hsteps => ?_
    have hfirst : Unchanged [(w, w')] := by simpa [Unchanged] using stream_append hp ha
    exact unchanged_append.2 ⟨hfirst, hsteps⟩
  refine owns_perform ?_
  intro w ch a w' hp
  cases a with
  | error err =>
    cases err with
    | occConflict => exact hquiet w ch _ w' hp rfl hconflict
    | other => exact hlost.mono fun _ _ => .inr
  | ok ack =>
    rcases ack with ⟨duplicate, seq⟩
    cases duplicate with
    | true => exact hquiet w ch _ w' hp rfl (hduplicate seq)
    | false => exact (hcommitted seq).mono fun _ _ => .inr

end Operations

/-! ## The router's programs -/

section Programs

variable {r : Router} {t i : String}

def closedScope (r : Router) (t i : String) : Scope where
  router := r.id
  tenant := t
  iid := i
  event := fun _ => False
  object := fun _ => True
  flight := fun _ => True

theorem silent_of_scope {α : Type} {p : Program α} {Q : α → Prop}
    (h : (closedScope r t i).Within Q p) : Silent p := by
  refine silent_of_within (h.mono ?_ ?_)
  · intro op hop
    cases op with
    | append author subject ev id expected => exact hop.2.2.2.2.elim
    | _ => rfl
  · exact fun op a _ => Scope.answers_all (fun _ => trivial) (fun _ => trivial) op a

variable {site : ReplaySite} {st : InteractionState}

theorem silent_rebuild : Silent (rebuild r site t i) := by
  refine silent_bind (silent_perform rfl) fun a => ?_
  cases a with
  | none | some out => exact silent_pure _

theorem silent_evictWhen {ended : Bool} : Silent (evictWhen r t i ended) := by
  cases ended with
  | false => exact silent_pure _
  | true => exact silent_perform rfl

theorem silent_getState : Silent (getState r t i) :=
  silent_of_scope (Scope.within_getState rfl rfl rfl)

variable {commandId : String} {retry : Option Attempt}

theorem excused_of_retry {reason : String} (h : "retry".toList <:+ reason.toList) :
    Excused (rejected commandId reason) :=
  .inr (.inl h)

theorem excused_accepted (commandId : String) : Excused (accepted commandId) :=
  .inl (by simp)

theorem excusing_failClosed {res : CommandResult} (h : Excused res) :
    Excusing Prod.fst (failClosed r t i st res) :=
  excusing_bind fun _ => owns_pure h

theorem lostAppend_retry : "retry".toList <:+ "lost concurrent append — retry".toList := by
  decide

theorem appendFailed_retry : "retry".toList <:+ "log append failed — retry".toList := by
  decide

theorem blameless_onConflict
    (hretry : ∀ again, retry = some again → ∀ st, Blameless Prod.fst (again st)) :
    Blameless Prod.fst (onConflict r site t i commandId st retry) := by
  refine blameless_bind silent_rebuild fun fresh => ?_
  have hfail : Blameless Prod.fst
      (failClosed r t i st (rejected commandId "lost concurrent append — retry")) :=
    (excusing_failClosed (excused_of_retry lostAppend_retry)).blameless
  cases fresh with
  | none => exact hfail
  | some fresh =>
    cases retry with
    | none => exact hfail
    | some again => exact hretry again rfl _

/-! ## Ordinary commands -/

def Rebuilt (fresh : Option InteractionState) : Prop :=
  ∀ st ∈ fresh, ∀ id prev, st.results.lookup id = some prev → Excused prev.result

theorem owns_rebuild : Owns machine (fun _ fresh => Rebuilt fresh) (rebuild r site t i) := by
  refine owns_perform fun w ch a w' _ => ?_
  cases a with
  | none => exact owns_pure (by simp [Rebuilt])
  | some out =>
    refine owns_pure ?_
    intro st hst id prev hprev
    cases hst
    rcases InteractionState.rebuildFrom_results hprev with ⟨e, _, _, rfl⟩
    exact excused_accepted id

variable {c : Ordinary}

theorem blameless_attempt
    (hretry : ∀ again, retry = some again → ∀ st, Blameless Prod.fst (again st)) :
    Blameless Prod.fst (attempt r c retry st) := by
  unfold attempt
  cases hpre : c.precheck r.maxResults st with
  | some out => exact blameless_pure out
  | none =>
    refine blameless_bind (silent_perform rfl) fun eventId => ?_
    refine blameless_bind (silent_perform rfl) fun at_ => ?_
    refine blameless_append ?conflict ?duplicate ?lost ?committed
    case conflict => exact blameless_onConflict hretry
    case duplicate =>
        intro seq
        refine blameless_bind silent_rebuild fun fresh => ?_
        cases fresh with
        | none => exact (excusing_failClosed (excused_accepted _)).blameless
        | some fresh => exact blameless_pure _
    case lost =>
        -- the call either finds its fact in the log or asks for a retry
        refine owns_bind (owns_rebuild.mono ?_)
        intro _ fresh hfresh
        have hfail : Excusing Prod.fst (failClosed r c.tenant c.iid st
            (rejected c.cmd.commandId "log append failed — retry")) :=
          excusing_failClosed (excused_of_retry appendFailed_retry)
        cases fresh with
        | none => exact hfail
        | some fresh =>
          cases hprev : fresh.results.lookup c.cmd.commandId with
          | none =>
            simp only [Option.bind_some, hprev]
            exact hfail
          | some prev =>
            simp only [Option.bind_some, hprev]
            exact owns_pure (hfresh fresh rfl _ prev hprev)
    case committed =>
        intro seq
        exact excusing_bind fun _ => owns_pure (excused_accepted _)

theorem blameless_locked {site : LockSite} {id : String} {loop : Attempt}
    (hloop : ∀ st, Blameless Prod.fst (loop st)) :
    Blameless (fun res => res) (locked r site t i id loop) := by
  refine blameless_bind silent_getState fun o? => ?_
  cases o? with
  | none => exact blameless_pure _
  | some o =>
    refine blameless_bind (silent_perform rfl) fun st => ?_
    cases hpoisoned : st.poisoned with
    | true =>
      exact blameless_bind (silent_perform rfl) fun _ => blameless_pure _
    | false =>
      refine blameless_then (hloop st) ?_ ?_
      · intro out
        exact silent_bind (silent_perform rfl) fun _ => silent_pure _
      · intro out hout
        exact excusing_bind fun _ => owns_pure hout

theorem blameless_handleOrdinary : Blameless id (handleOrdinary r c) := by
  exact blameless_locked (appendLoop_induct (fun _ hretry _ => blameless_attempt hretry) _)

end Programs

/-! ## Privileged commands -/

section Privileged

variable {r : Router} {p : Privileged} {f : PlannedFact}

theorem blameless_attemptFact {st : InteractionState} {retry : Option Attempt}
    (hretry : ∀ again, retry = some again → ∀ st, Blameless Prod.fst (again st)) :
    Blameless Prod.fst (attemptFact r p f retry st) := by
  unfold attemptFact
  cases hcheck : p.checkFact f st with
  | some res => exact blameless_bind silent_evictWhen fun _ => blameless_pure _
  | none =>
    refine blameless_bind (silent_perform rfl) fun eventId => ?_
    refine blameless_bind (silent_perform rfl) fun at_ => ?_
    -- a duplicate ack is taken for a committed append
    have hacked : ∀ seq, Excusing Prod.fst (do
        let st := p.onAck r.maxResults f st (p.factEvent f st eventId at_) seq
        evictWhen r p.tenant p.iid (st.status = .ended)
        return (accepted (p.subID f), st) : Program (CommandResult × InteractionState)) :=
      fun seq => excusing_bind fun _ => owns_pure (excused_accepted _)
    refine blameless_append ?conflict ?duplicate ?lost ?committed
    case conflict => exact blameless_onConflict hretry
    case duplicate => exact fun seq => (hacked seq).blameless
    case lost => exact excusing_failClosed (excused_of_retry appendFailed_retry)
    case committed => exact hacked

theorem blameless_appendParticipationFact : Blameless id (appendParticipationFact r p f) := by
  exact blameless_locked (factLoop_induct (fun _ hretry _ => blameless_attemptFact hretry) _)

def outcomeOf (p : Privileged) (failed : Option CommandResult) : CommandResult :=
  failed.getD (accepted p.cmd.commandId)

theorem excusing_appendFacts_later (facts : List PlannedFact) :
    Excusing (outcomeOf p) (appendFacts r p true facts) := by
  induction facts with
  | nil => exact owns_pure (excused_accepted _)
  | cons f rest ih =>
    refine excusing_bind fun res => ?_
    by_cases hres : res.status = .accepted
    · simp only [hres]
      exact ih
    · simp only [hres, ne_eq]
      refine owns_pure (.inr (.inr ?_))
      simp [outcomeOf]

theorem blameless_appendFacts (facts : List PlannedFact) :
    Blameless (outcomeOf p) (appendFacts r p false facts) := by
  cases facts with
  | nil => exact blameless_pure _
  | cons f rest =>
    refine owns_bind (blameless_appendParticipationFact.mono ?_)
    intro first res hres
    by_cases hacc : res.status = .accepted
    · simp only [hacc]
      exact (excusing_appendFacts_later rest).mono fun _ _ => .inr
    · simp only [hacc, ne_eq]
      refine owns_pure ?_
      rw [List.append_nil]
      exact hres

theorem blameless_handlePrivileged : Blameless id (handlePrivileged r p) := by
  refine blameless_bind silent_getState fun o? => ?_
  cases o? with
  | none => exact blameless_pure _
  | some o =>
    refine blameless_bind (silent_perform rfl) fun st => ?_
    refine blameless_bind (silent_perform rfl) fun _ => ?_
    cases hdiv : p.diverges st with
    | true => exact blameless_pure _
    | false =>
      refine blameless_then (blameless_appendFacts p.facts) ?_ ?_
      · intro failed
        cases failed with
        | some res => exact silent_pure _
        | none =>
          refine silent_bind (silent_perform rfl) fun _ => ?_
          exact silent_bind (silent_perform rfl) fun _ => silent_pure _
      · intro failed hfailed
        cases failed with
        | some res => exact owns_pure hfailed
        | none => exact excusing_bind fun _ => excusing_bind fun _ => owns_pure (excused_accepted _)

end Privileged

theorem blameless_handleCommand (call : Call) : Blameless id (handleCommand call) := by
  unfold handleCommand
  split
  · exact blameless_pure _
  · exact blameless_handleOrdinary
  · exact blameless_handlePrivileged

/-- In every run, from any state of the routers and the store, a call that is refused for a reason
that neither asks for a retry nor reports a partial transfer has appended nothing to the stream. -/
theorem rejection_appends_nothing {w₀ : World} {c : Config Ans Call World CommandResult}
    {moves : List (Move World)} (h : Traced machine handleCommand w₀ c moves) {i : Nat} {call : Call}
    {res : CommandResult} (hres : c.result i = some (call, res)) (hrejected : res.status = .rejected)
    (hretry : ¬ "retry".toList <:+ res.reason.toList)
    (hpart : ¬ "transfer partially applied".toList <+: res.reason.toList) :
    ∀ m ∈ moves, m.thread = i → m.after.broker.stream = m.before.broker.stream := by
  rcases blameless_handleCommand call _ res (h.returned hres) with hquiet | hexcused
  · intro m hm hi
    refine hquiet (m.before, m.after) (List.mem_map.2 ⟨m, ?_, rfl⟩)
    exact List.mem_filter.2 ⟨hm, by simpa using hi⟩
  · rcases hexcused with hne | hend | hstart
    · exact absurd hrejected hne
    · exact absurd hend hretry
    · exact absurd hstart hpart

namespace Scenario

/-- Router 2 ends the interaction; router 1, which has not heard of it, offers a message, loses the
race and finds on the second look that the interaction has ended. -/
def endedMeanwhile : Schedule :=
  [.spawn (ordinary 1 backend "s" "interaction.started" [])] ++ acts 0 (write cold .go) ++
  [.spawn (ordinary 2 backend "e" "interaction.ended" [])] ++
    acts 1 (cold ++ [.go] ++ offer .go ++ [.go, .go]) ++
  [.spawn (ordinary 1 backend "m" "message" [])] ++
    acts 2 (warm ++ [.go] ++ offer .go ++ [.go, .go])

end Scenario

open Scenario in
theorem rejection_appends_nothing_endedMeanwhile :
    ∃ (c : Config Ans Call World CommandResult) (moves : List (Move World)),
      Traced machine handleCommand World.start c moves ∧
      c.result 2 = some (ordinary 1 backend "m" "message" [],
        rejected "m" "illegal transition \"message\" from state \"ended\"") ∧
      (movesOf 2 moves).length = 7 ∧
      ∀ m ∈ moves, m.thread = 2 → m.after.broker.stream = m.before.broker.stream := by
  have hrun : (traceRun machine handleCommand endedMeanwhile (⟨World.start, []⟩, [])).map
      (fun out => (out.1.result 2, (movesOf 2 out.2).length)) =
        some (some (ordinary 1 backend "m" "message" [],
          rejected "m" "illegal transition \"message\" from state \"ended\""), 7) := by
    decide +kernel
  rcases exists_of_trace hrun with ⟨c, moves, hc, heq⟩
  rcases Prod.mk.inj heq with ⟨hres, hlen⟩
  exact ⟨c, moves, hc, hres, hlen, rejection_appends_nothing hc hres rfl (by decide) (by decide)⟩

end RelayPoint.Signaling
