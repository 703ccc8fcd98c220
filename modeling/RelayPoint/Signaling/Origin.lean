import RelayPoint.Signaling.Footprint

/-!
# Origin — where the messages of the log come from

Only an append extends the stream, and a call appends nothing but the events that its request stands
for.  So every message of a log is an event of the request of some call of the run, with the event id
and the time that the router drew for it (`originates`).  What is to be shown of every fact of the
log is then shown of `Ordinary.event` and `Privileged.factEvent`.
-/

namespace RelayPoint.Signaling

open Concurrency Journal

/-- The message is an event that the request of the call stands for, on the subject of its log. -/
inductive Call.Originates (call : Call) (m : Msg String String Fact) : Prop where
  | ordinary {c : Ordinary} {st : InteractionState} {eventId : String} {at_ : Nat} :
      call.request = .ordinary c → m.subject = c.subject →
      m.payload.event = c.event st eventId at_ → Originates call m
  | privileged {p : Privileged} {f : PlannedFact} {st : InteractionState} {eventId : String}
      {at_ : Nat} : call.request = .privileged p → f ∈ p.facts → m.subject = p.subject →
      m.payload.event = p.factEvent f st eventId at_ → Originates call m

def Call.Offers (call : Call) : Op → Prop
  | .append author subject ev id _ => call.Originates ⟨subject, id, ⟨author, ev⟩⟩
  | .replay .. | .now | .newID | .interGet .. | .interPut .. | .interDelete .. | .loadJoin ..
  | .loadWait _ | .loadDone .. | .lock .. | .unlock .. => True

theorem handleCommand_offers (call : Call) :
    Prog.Within call.Offers (fun _ _ => True) (fun _ => True) (handleCommand call) := by
  cases hnamed : parseCmdSubject call.subject with
  | none =>
    rcases handleCommand_unnamed hnamed with ⟨res, hres⟩
    rw [hres]
    exact Prog.within_pure trivial
  | some name =>
    rcases name with ⟨tenant, iid, suffix⟩
    -- the scope of the interaction that the subject names, with all pointers
    let s : Scope :=
      { router := call.router.id, tenant, iid
        event := fun ev => ∀ m : Msg String String Fact, m.subject = logSubjectFor tenant iid →
          m.payload.event = ev → call.Originates m
        object := fun _ => True
        flight := fun _ => True }
    have hwithin : s.Within (fun _ => True) (handleCommand call) := by
      refine s.within_handleCommand rfl hnamed ?_ ?_
      · intro c hrequest _ st eventId at_ m hsubject hevent
        rcases Call.ordinary_names hnamed hrequest with ⟨rfl, rfl, _⟩
        exact .ordinary hrequest hsubject hevent
      · intro p hrequest _ f hf st eventId at_ m hsubject hevent
        rcases Call.privileged_names hnamed hrequest with ⟨rfl, rfl, _⟩
        exact .privileged hrequest hf hsubject hevent
    refine hwithin.mono ?_ ?_
    · intro op hop
      cases op with
      | append author subject ev id expected => exact hop.2.2.2.2 ⟨subject, id, ⟨author, ev⟩⟩ hop.1 rfl
      | _ => trivial
    · exact fun op a _ => s.answers_all (fun _ => trivial) (fun _ => trivial) op a

/-! ## Runs -/

section Runs

variable {P : Policy Op Call World Choice Tick} {w₀ : World}
variable {c c' : Config Ans Call World CommandResult}

theorem step_stream {l : Label Call Choice Tick} (hstep : step machine handleCommand c l = some c') :
    c'.world.broker.stream = c.world.broker.stream ∨
      ∃ i ch th author subject ev id expected next, l = .act i ch ∧ c.pool[i]? = some th ∧
        th.prog = .call (.append author subject ev id expected) next ∧
        c'.world.broker.stream = c.world.broker.stream ++ [⟨subject, id, ⟨author, ev⟩⟩] := by
  cases l with
  | spawn call =>
    cases hstep
    exact .inl rfl
  | tick t =>
    rcases step_tick hstep with ⟨w, ht, rfl⟩
    refine .inl ?_
    cases t <;> cases ht <;> rfl
  | act i ch =>
    rcases step_act hstep with ⟨th, op, next, a, w, hi, hp, hperf, rfl⟩
    rcases (perform_effect hperf).stream with heq | ⟨author, subject, ev, id, expected, rfl, heq⟩
    · exact .inl heq
    · exact .inr ⟨i, ch, th, author, subject, ev, id, expected, next, rfl, hi, hp, heq⟩

theorem originates_of_append (h : Reachable machine handleCommand P w₀ c) {i : Nat}
    {th : Thread Ans Call World CommandResult} (hi : c.pool[i]? = some th) {author : Author}
    {subject id : String} {ev : Event} {expected : Nat} {next}
    (hp : th.prog = .call (.append author subject ev id expected) next) :
    th.call.Originates ⟨subject, id, ⟨author, ev⟩⟩ := by
  have hthread := h.threads (fun call _ => handleCommand_offers call)
    (fun _ _ _ a hw => hw.2 a trivial) th (List.mem_of_getElem? hi)
  rw [hp] at hthread
  exact hthread.1

theorem originates (h : Reachable machine handleCommand P World.start c) :
    ∀ m ∈ c.world.broker.stream, (∃ th ∈ c.pool, th.call.Originates m) ∧
      ∃ born w expected ch,
        P.op born w (.append m.payload.author m.subject m.payload.event m.id expected) ch := by
  induction h with
  | start => simp [World.start, Broker.empty]
  | @tail c c' l hreach hall hstep ih =>
    have hcalls := step_calls hstep
    have hkeep : ∀ m : Msg String String Fact, (∃ th ∈ c.pool, th.call.Originates m) →
        ∃ th ∈ c'.pool, th.call.Originates m := by
      rintro m ⟨th, hth, horigin⟩
      rcases hcalls th hth with ⟨th', hth', hcall⟩
      exact ⟨th', hth', hcall ▸ horigin⟩
    intro m hm
    rcases step_stream hstep with heq | ⟨i, ch, th, author, subject, ev, id, expected, next, rfl, hi, hp, heq⟩
    · rw [heq] at hm
      exact ⟨hkeep m (ih m hm).1, (ih m hm).2⟩
    · rw [heq] at hm
      rcases List.mem_append.1 hm with hm | hm
      · exact ⟨hkeep m (ih m hm).1, (ih m hm).2⟩
      · rw [List.mem_singleton.1 hm]
        refine ⟨hkeep _ ⟨th, List.mem_of_getElem? hi, originates_of_append hreach hi hp⟩, ?_⟩
        refine ⟨th.born, c.world, expected, ch, ?_⟩
        simpa [Allowed, hi, hp] using hall

end Runs

end RelayPoint.Signaling
