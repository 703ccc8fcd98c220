import RelayPoint.Signaling.Origin
import RelayPoint.Signaling.LogLaws

/-!
# Authorship — on whose behalf facts are in the log

The checks of `HandleCommand` are spread over early returns and two appenders.  Here they come
together: what a fact says about its tenant, its actor and its cause is bound to the subject and the
identity of the call that appended it.
-/

namespace RelayPoint.Signaling

open Concurrency Journal

/-- The event is one that the call with this decoded command may append, on a subject that names
`tenant` and `suffix`. -/
structure Authored (call : Call) (tenant suffix : String) (cmd : Command) (ev : Event) : Prop where
  tenant_eq : ev.tenantId = tenant
  identity_tenant : call.id.tenantId ≠ "" → tenant = call.id.tenantId
  authenticated : call.router.devMode = false → isAuthenticated call.id = true
  actor : call.id.role ≠ roleTrustedBackend → ev.actorId = suffix
  user : call.id.role ≠ roleTrustedBackend → call.id.userId ≠ "" → ev.actorId = call.id.userId
  ordinary : call.id.role ≠ roleTrustedBackend → isParticipationFact ev.eventType = false
  capable : call.id.role ≠ roleTrustedBackend → isAuthenticated call.id = true →
    isSubscriberCapability call.id.capability = true
  privileged : isParticipationFact ev.eventType = true →
    call.id.role = roleTrustedBackend ∧ isParticipationCommand cmd.type = true ∧
      ev.causedBy = cmd.commandId ∧ ev.commandedBy = suffix

theorem Ordinary.From.authored {call : Call} {c : Ordinary}
    (h : c.From call.router.devMode call.id call.subject call.data) (st : InteractionState)
    (eventId : String) (at_ : Nat) :
    Authored call c.tenant c.suffix c.cmd (c.event st eventId at_) where
  tenant_eq := rfl
  identity_tenant := h.vetted.identity_tenant
  authenticated := h.vetted.authenticated
  actor := h.vetted.author
  user := fun hrole huser => (h.vetted.author hrole).trans (h.vetted.user hrole huser)
  ordinary := fun _ => c.not_fact
  capable := fun hrole hauth => h.capable hauth hrole
  privileged := by
    intro hfact
    rw [show (c.event st eventId at_).eventType = c.cmd.type from rfl, c.not_fact] at hfact
    cases hfact

theorem Candidate.From.authored {call : Call} {p : Privileged}
    (h : p.toCandidate.From call.router.devMode call.id call.subject call.data) (f : PlannedFact)
    (st : InteractionState) (eventId : String) (at_ : Nat) :
    Authored call p.tenant p.actor p.cmd (p.factEvent f st eventId at_) := by
  have htrusted : call.id.role = roleTrustedBackend := by
    rw [← h.ctx]
    exact p.trusted
  -- the role settles everything that is asked of the others
  exact {
    tenant_eq := rfl
    identity_tenant := h.vetted.identity_tenant
    authenticated := h.vetted.authenticated
    actor := fun hrole => absurd htrusted hrole
    user := fun hrole => absurd htrusted hrole
    ordinary := fun hrole => absurd htrusted hrole
    capable := fun hrole => absurd htrusted hrole
    privileged := fun _ => ⟨htrusted, p.is_command, rfl, rfl⟩ }

def Call.Authors (call : Call) (m : Msg String String Fact) : Prop :=
  ∃ cmd tenant iid suffix, call.data = some cmd ∧
    parseCmdSubject call.subject = some (tenant, iid, suffix) ∧ m.subject = logSubjectFor tenant iid ∧
    Authored call tenant suffix cmd m.payload.event

theorem Call.Originates.authors {call : Call} {m : Msg String String Fact} (h : call.Originates m) :
    call.Authors m := by
  cases h with
  | @ordinary c st eventId at_ hrequest hsubject hevent =>
    have hfrom := Call.request_ordinary hrequest
    refine ⟨c.cmd, c.tenant, c.iid, c.suffix, hfrom.payload, hfrom.named, hsubject, ?_⟩
    rw [hevent]
    exact hfrom.authored st eventId at_
  | @privileged p f st eventId at_ hrequest _ hsubject hevent =>
    have hfrom := Call.request_privileged hrequest
    refine ⟨p.cmd, p.tenant, p.iid, p.actor, hfrom.payload, hfrom.named, hsubject, ?_⟩
    rw [hevent]
    exact hfrom.authored f st eventId at_

/-! ## Runs -/

variable {c c' : Config Ans Call World CommandResult} {w₀ : World}

theorem step_authors (h : Reachable machine handleCommand Policy.free w₀ c)
    {l : Label Call Choice Tick} (hstep : step machine handleCommand c l = some c') :
    ∃ new, c'.world.broker.stream = c.world.broker.stream ++ new ∧
      ∀ m ∈ new, ∃ i ch th, l = .act i ch ∧ c.pool[i]? = some th ∧ th.call.Authors m := by
  rcases step_stream hstep with heq | ⟨i, ch, th, author, subject, ev, id, expected, next, rfl, hi, hp, heq⟩
  · exact ⟨[], by simpa using heq, by simp⟩
  · refine ⟨_, heq, ?_⟩
    intro m hm
    rw [List.mem_singleton.1 hm]
    exact ⟨i, ch, th, rfl, hi, (originates_of_append h hi hp).authors⟩

/-- In every run of any fleet of routers, whatever fails: each fact in the log is one that a call of
the run may append, and a step adds at most a fact that the call of its thread may append. -/
theorem facts_authored (h : Reachable machine handleCommand Policy.free World.start c) :
    (∀ m ∈ c.world.broker.stream, ∃ th ∈ c.pool, th.call.Authors m) ∧
      ∀ l c', step machine handleCommand c l = some c' →
        ∃ new, c'.world.broker.stream = c.world.broker.stream ++ new ∧
          ∀ m ∈ new, ∃ i ch th, l = .act i ch ∧ c.pool[i]? = some th ∧ th.call.Authors m := by
  refine ⟨?_, fun l c' => step_authors h⟩
  intro m hm
  rcases (originates h m hm).1 with ⟨th, hth, horigin⟩
  exact ⟨th, hth, horigin.authors⟩

namespace Scenario

def assignment : Schedule :=
  [.spawn (ordinary 1 backend "s" "interaction.started" [])] ++ acts 0 (write cold .go) ++
  [.spawn (privileged 1 "p" "participant.assign" "A" "")] ++ acts 1 (land warm .go) ++
  [.spawn (ordinary 1 (agent "A") "m" "message" [])] ++ acts 2 (write warm .go)

end Scenario

open Scenario in
theorem facts_authored_assignment : ∃ c : Config Ans Call World CommandResult,
    Reachable machine handleCommand Policy.free World.start c ∧
      typesOf (factsOf c.world.broker (logSubjectFor "t" "i")) =
        ["interaction.started", "participant.joined", "message"] ∧
      ∀ m ∈ c.world.broker.stream, ∃ th ∈ c.pool, th.call.Authors m := by
  have hrun : (run machine handleCommand Policy.free assignment ⟨World.start, []⟩).map
      (fun c => typesOf (factsOf c.world.broker (logSubjectFor "t" "i"))) =
        some ["interaction.started", "participant.joined", "message"] := by
    decide +kernel
  rcases exists_of_run hrun with ⟨c, hc, htypes⟩
  exact ⟨c, hc, htypes, (facts_authored hc).1⟩

end RelayPoint.Signaling
