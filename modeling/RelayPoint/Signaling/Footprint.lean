import RelayPoint.Signaling.Provenance

/-!
# Footprint — what a call can touch

A call of `HandleCommand` on one interaction appends to the log of that interaction only, uses one key
of its router's cache and singleflight group, and locks only objects that it got from them.  This is a
fact about the program text: it holds whatever the operations answer, up to the assumption that the
cache, the flights and a new entry hand out objects of the right kind.
-/

namespace RelayPoint.Signaling

open Concurrency

structure Scope where
  router : Nat
  tenant : String
  iid : String
  event : Event → Prop
  object : Nat → Prop
  flight : Nat → Prop

namespace Scope

def key (s : Scope) : String :=
  stateKey s.tenant s.iid

def Allows (s : Scope) : Op → Prop
  | .append _ subject ev id _ =>
    subject = logSubjectFor s.tenant s.iid ∧ id = dedupID s.tenant s.iid ev.commandId ∧
      ev.commandId ≠ "" ∧ ev.payloadHash ≠ "" ∧ s.event ev
  | .replay .. | .now | .newID => True
  | .interGet r key | .interPut r key _ | .interDelete r key | .loadJoin r key =>
    r = s.router ∧ key = s.key
  | .loadWait f => s.flight f
  | .loadDone r key f res =>
    r = s.router ∧ key = s.key ∧ s.flight f ∧ ∀ o, res = some o → s.object o
  | .lock _ o | .unlock o _ => s.object o

def Answers (s : Scope) : (op : Op) → Ans op → Prop
  | .interGet .., res => ∀ o, res = some o → s.object o
  | .interPut .., o => s.object o
  | .loadJoin .., .lead f => s.flight f
  | .loadJoin .., .join f => s.flight f
  | .loadWait _, res => ∀ o, res = some o → s.object o
  | _, _ => True

abbrev Within (s : Scope) {α : Type} (Q : α → Prop) (prog : Program α) : Prop :=
  Prog.Within s.Allows s.Answers Q prog

variable {s : Scope} {r : Router} {t i : String} {α : Type} {Q : α → Prop}

/-! ## State access -/

theorem within_rebuild {site : ReplaySite} {k : Option InteractionState → Program α}
    (h : ∀ res, s.Within Q (k res)) : s.Within Q (rebuild r site t i >>= k) := by
  refine Prog.within_perform trivial fun a _ => ?_
  cases a with
  | none => exact h none
  | some facts => exact h _

section Named

variable (hr : s.router = r.id) (ht : s.tenant = t) (hi : s.iid = i)
include hr ht hi

theorem names_key : r.id = s.router ∧ stateKey t i = s.key := by
  simp [hr, ht, hi, key]

variable {k : Unit → Program α} {st : InteractionState}

theorem within_evict (h : s.Within Q (k ())) : s.Within Q (evict r t i >>= k) :=
  Prog.within_perform (names_key hr ht hi) fun _ _ => h

theorem within_evictWhen {ended : Bool} (h : s.Within Q (k ())) :
    s.Within Q (evictWhen r t i ended >>= k) := by
  cases ended with
  | true => exact within_evict hr ht hi h
  | false => exact h

theorem within_loadState :
    s.Within (fun res => ∀ o, res = some o → s.object o) (loadState r t i) := by
  refine Prog.within_perform (names_key hr ht hi) fun a ha => ?_
  cases a with
  | some o => exact ha
  | none =>
    refine within_rebuild fun res => ?_
    cases res with
    | none => simp [Prog.Within, Prog.pure_eq]
    | some built =>
      refine Prog.within_perform (names_key hr ht hi) fun o ho => ?_
      intro o' ho'
      cases ho'
      exact ho

theorem within_getState :
    s.Within (fun res => ∀ o, res = some o → s.object o) (getState r t i) := by
  refine Prog.within_perform (names_key hr ht hi) fun a ha => ?_
  cases a with
  | some o => exact ha
  | none =>
    refine Prog.within_perform (names_key hr ht hi) fun flight hflight => ?_
    cases flight with
    | join f => exact Prog.within_perform hflight fun res hres => hres
    | lead f =>
      refine Prog.within_bind (within_loadState hr ht hi) fun res hres => ?_
      rcases names_key hr ht hi with ⟨hrouter, hkey⟩
      exact Prog.within_perform ⟨hrouter, hkey, hflight, hres⟩ fun _ _ => hres

theorem within_failClosed {res : CommandResult} :
    s.Within (fun _ => True) (failClosed r t i st res) :=
  within_evict hr ht hi trivial

theorem within_onConflict {site : ReplaySite} {commandId : String} {retry : Option Attempt}
    (hretry : ∀ again, retry = some again → ∀ st, s.Within (fun _ => True) (again st)) :
    s.Within (fun _ => True) (onConflict r site t i commandId st retry) := by
  refine within_rebuild fun fresh => ?_
  cases fresh with
  | none => exact within_failClosed hr ht hi
  | some fresh =>
    cases hagain : retry with
    | none => exact within_failClosed hr ht hi
    | some again => exact hretry again hagain _

theorem within_locked {site : LockSite} {id : String} {loop : Attempt}
    (hloop : ∀ st, s.Within (fun _ => True) (loop st)) :
    s.Within (fun _ => True) (locked r site t i id loop) := by
  refine Prog.within_bind (within_getState hr ht hi) fun res hres => ?_
  cases res with
  | none => exact Prog.within_pure trivial
  | some o =>
    have ho := hres o rfl
    refine Prog.within_perform ho fun st _ => ?_
    split
    · exact Prog.within_perform ho fun _ _ => trivial
    · refine Prog.within_bind (hloop st) fun out _ => ?_
      exact Prog.within_perform ho fun _ _ => trivial

end Named

/-! ## Ordinary commands -/

section Ordinary

variable {c : Ordinary} (hr : s.router = r.id) (ht : s.tenant = c.tenant) (hi : s.iid = c.iid)
variable (hevent : ∀ st eventId at_, s.event (c.event st eventId at_))
include hr ht hi hevent

theorem within_attempt {retry : Option Attempt}
    (hretry : ∀ again, retry = some again → ∀ st, s.Within (fun _ => True) (again st))
    (st : InteractionState) : s.Within (fun _ => True) (attempt r c retry st) := by
  unfold attempt
  split
  · exact Prog.within_pure trivial
  · refine Prog.within_perform trivial fun eventId _ => ?_
    refine Prog.within_perform trivial fun at_ _ => ?_
    have happend : s.Allows (.append ⟨c.ctx, none⟩ c.subject (c.event st eventId at_) c.dedupID
        st.streamSeq) := by
      refine ⟨?_, ?_, c.commandId_ne, hashPayload_ne_empty c.cmd, hevent st eventId at_⟩
      all_goals
        rw [ht, hi]
        rfl
    refine Prog.within_perform happend fun ack _ => ?_
    split
    · exact within_onConflict hr ht hi hretry
    · refine within_rebuild fun fresh => ?_
      split
      · exact Prog.within_pure trivial
      · exact within_failClosed hr ht hi
    · refine within_rebuild fun fresh => ?_
      cases fresh with
      | none => exact within_failClosed hr ht hi
      | some fresh => exact Prog.within_pure trivial
    · exact within_evictWhen hr ht hi (Prog.within_pure trivial)

theorem within_handleOrdinary : s.Within (fun _ => True) (handleOrdinary r c) := by
  exact within_locked hr ht hi (appendLoop_induct (fun _ => within_attempt hr ht hi hevent) _)

end Ordinary

/-! ## Privileged commands -/

section Privileged

variable {p : Privileged} (hr : s.router = r.id) (ht : s.tenant = p.tenant) (hi : s.iid = p.iid)
variable (hevent : ∀ f ∈ p.facts, ∀ st eventId at_, s.event (p.factEvent f st eventId at_))
include hr ht hi hevent

variable {f : PlannedFact}

theorem within_attemptFact (hf : f ∈ p.facts) {retry : Option Attempt}
    (hretry : ∀ again, retry = some again → ∀ st, s.Within (fun _ => True) (again st))
    (st : InteractionState) : s.Within (fun _ => True) (attemptFact r p f retry st) := by
  unfold attemptFact
  split
  · exact within_evictWhen hr ht hi (Prog.within_pure trivial)
  · refine Prog.within_perform trivial fun eventId _ => ?_
    refine Prog.within_perform trivial fun at_ _ => ?_
    have happend : s.Allows (.append ⟨p.ctx, p.payload⟩ p.subject (p.factEvent f st eventId at_)
        (p.dedupID f) st.streamSeq) := by
      refine ⟨?_, ?_, p.subID_ne_empty f, hashPayload_ne_empty _, hevent f hf st eventId at_⟩
      all_goals
        rw [ht, hi]
        rfl
    refine Prog.within_perform happend fun ack _ => ?_
    split
    · exact within_onConflict hr ht hi hretry
    · exact within_failClosed hr ht hi
    · exact within_evictWhen hr ht hi (Prog.within_pure trivial)

theorem within_appendParticipationFact (hf : f ∈ p.facts) :
    s.Within (fun _ => True) (appendParticipationFact r p f) := by
  exact within_locked hr ht hi
    (factLoop_induct (fun _ => within_attemptFact hr ht hi hevent hf) _)

theorem within_appendFacts {facts : List PlannedFact} (hfacts : facts ⊆ p.facts) :
    ∀ later, s.Within (fun _ => True) (appendFacts r p later facts) := by
  induction facts with
  | nil => exact fun _ => Prog.within_pure trivial
  | cons f rest ih =>
    rcases List.cons_subset.1 hfacts with ⟨hf, hrest⟩
    intro later
    refine Prog.within_bind (within_appendParticipationFact hr ht hi hevent hf) fun res _ => ?_
    split
    · exact Prog.within_pure trivial
    · exact ih hrest true

theorem within_handlePrivileged : s.Within (fun _ => True) (handlePrivileged r p) := by
  refine Prog.within_bind (within_getState hr ht hi) fun res hres => ?_
  cases res with
  | none => exact Prog.within_pure trivial
  | some o =>
    refine Prog.within_perform (hres o rfl) fun st _ => ?_
    refine Prog.within_perform (hres o rfl) fun _ _ => ?_
    split
    · exact Prog.within_pure trivial
    · refine Prog.within_bind
        (within_appendFacts hr ht hi hevent (List.Subset.refl _) false) fun out _ => ?_
      cases out with
      | some failed => exact Prog.within_pure trivial
      | none =>
        refine Prog.within_perform (hres o rfl) fun st _ => ?_
        exact Prog.within_perform (hres o rfl) fun _ _ => trivial

end Privileged

/-! ## Calls -/

theorem within_handleCommand {call : Call} {suffix : String} (hr : s.router = call.router.id)
    (hnamed : parseCmdSubject call.subject = some (s.tenant, s.iid, suffix))
    (hordinary : ∀ c, call.request = .ordinary c → c.suffix = suffix →
      ∀ st eventId at_, s.event (c.event st eventId at_))
    (hprivileged : ∀ p, call.request = .privileged p → p.actor = suffix →
      ∀ f ∈ p.facts, ∀ st eventId at_, s.event (p.factEvent f st eventId at_)) :
    s.Within (fun _ => True) (handleCommand call) := by
  unfold handleCommand
  cases hrequest : call.request with
  | refuse res => exact Prog.within_pure trivial
  | ordinary c =>
    rcases Call.ordinary_names hnamed hrequest with ⟨ht, hi, hsuffix⟩
    exact within_handleOrdinary hr ht hi (hordinary c hrequest hsuffix.symm)
  | privileged p =>
    rcases Call.privileged_names hnamed hrequest with ⟨ht, hi, hactor⟩
    exact within_handlePrivileged hr ht hi (hprivileged p hrequest hactor.symm)

theorem answers_all (hobject : ∀ o, s.object o) (hflight : ∀ f, s.flight f) (op : Op) (a : Ans op) :
    s.Answers op a := by
  cases op with
  | interGet r key | loadWait f => exact fun o _ => hobject o
  | interPut r key st => exact hobject a
  | loadJoin r key =>
    cases a with
    | lead f | join f => exact hflight f
  | _ => exact trivial

end Scope

theorem handleCommand_unnamed {call : Call} (h : parseCmdSubject call.subject = none) :
    ∃ res, handleCommand call = pure res := by
  unfold handleCommand
  cases hrequest : call.request with
  | refuse res => exact ⟨res, rfl⟩
  | ordinary c => simp [(Call.request_ordinary hrequest).named] at h
  | privileged p => simp [(Call.request_privileged hrequest).named] at h

/-! ## What the operations do -/

def Effect (w : World) : (op : Op) → Ans op → World → Prop
  | .append author subject ev id _, _, w' =>
    w' = w ∨ w' = { w with broker := w.broker.commit ⟨subject, id, ⟨author, ev⟩⟩ }
  | .replay .., _, w' | .now, _, w' | .newID, _, w' => w' = w
  | .interGet r key, res, w' => res = w.inter r key ∧ w' = w
  | .interPut r key st, o, w' => o = w.heap.length ∧ w' = w.alloc r key st
  | .interDelete r key, _, w' => w' = { w with inter := setAt w.inter r key none }
  | .loadJoin r key, .join f, w' => w.load r key = some f ∧ w' = w
  | .loadJoin r key, .lead f, w' =>
    w.load r key = none ∧ f = w.flights.length ∧ w' = w.takeOff r key
  | .loadWait f, res, w' => (∃ key, w.flights[f]? = some (key, some res)) ∧ w' = w
  | .loadDone r key f res, _, w' => w' = w.land r key f res
  | .lock _ o, st, w' => ∃ cell, w.heap[o]? = some cell ∧ cell.locked = false ∧ st = cell.st ∧
      w' = { w with heap := w.heap.set o { cell with locked := true } }
  | .unlock o st, _, w' => ∃ cell, w.heap[o]? = some cell ∧
      w' = { w with heap := w.heap.set o { cell with st := st, locked := false } }

variable {w w' : World}

theorem performAppend_cases {m : Journal.Msg String String Fact} {expected : Nat} {ch : Choice}
    {a : Except AppendError (Bool × Nat)} (h : performAppend w m expected ch = some (a, w')) :
    w' = w ∨ w' = { w with broker := w.broker.commit m } := by
  have hoffer : ∀ first, { w with broker := (w.broker.offer first m expected).2 } = w ∨
      { w with broker := (w.broker.offer first m expected).2 } =
        { w with broker := w.broker.commit m } := by
    intro first
    have hack : w.broker.offer first m expected =
        ((w.broker.offer first m expected).1, (w.broker.offer first m expected).2) := rfl
    rcases Journal.Broker.offer_cases hack with ⟨_, _, _, _, hb⟩ | ⟨_, hb⟩ | ⟨_, _, _, hb⟩
    · exact .inl (by rw [hb])
    · exact .inl (by rw [hb])
    · exact .inr (by rw [hb])
  cases ch with
  | go | lost =>
    cases h
    exact hoffer false
  | dedupFirst =>
    cases h
    exact hoffer true
  | fail =>
    cases h
    exact .inl rfl
  | time t | name s => cases h

theorem perform_effect {op : Op} {ch : Choice} {a : Ans op} (h : perform w op ch = some (a, w')) :
    Effect w op a w' := by
  cases op with
  | append author subject ev id expected => exact performAppend_cases h
  | replay _ _ | now | newID | interDelete _ _ | loadDone _ _ _ _ => cases ch <;> cases h <;> rfl
  | interGet _ _ | interPut _ _ _ => cases ch <;> cases h <;> exact ⟨rfl, rfl⟩
  | loadJoin r key =>
    cases ch with
    | go =>
      have hjoin : w.joinFlight r key = (a, w') := Option.some.inj h
      unfold World.joinFlight at hjoin
      split at hjoin
      · next f hf =>
          cases hjoin
          exact ⟨hf, rfl⟩
      · next hnone =>
          cases hjoin
          exact ⟨hnone, rfl, rfl⟩
    | _ => cases h
  | loadWait f =>
    cases ch with
    | go =>
      have hwait : w.awaitFlight f = some (a, w') := h
      unfold World.awaitFlight at hwait
      split at hwait
      · next key res hf =>
          cases hwait
          exact ⟨⟨key, hf⟩, rfl⟩
      · cases hwait
    | _ => cases h
  | lock site o =>
    cases ch with
    | go =>
      have hlock : w.lockCell o = some (a, w') := h
      unfold World.lockCell at hlock
      split at hlock
      · next cell hcell =>
          split at hlock
          · cases hlock
          · next hfree =>
              cases hlock
              exact ⟨cell, hcell, by simpa using hfree, rfl, rfl⟩
      · cases hlock
    | _ => cases h
  | unlock o st =>
    cases ch with
    | go =>
      have hunlock : w.unlockCell o st = some (a, w') := h
      unfold World.unlockCell at hunlock
      split at hunlock
      · next cell hcell =>
          cases hunlock
          exact ⟨cell, hcell, rfl⟩
      · cases hunlock
    | _ => cases h

theorem Effect.stream {op : Op} {a : Ans op} (h : Effect w op a w') :
    w'.broker.stream = w.broker.stream ∨
      ∃ author subject ev id expected, op = .append author subject ev id expected ∧
        w'.broker.stream = w.broker.stream ++ [⟨subject, id, ⟨author, ev⟩⟩] := by
  cases op with
  | append author subject ev id expected =>
    rcases h with rfl | rfl
    · exact .inl rfl
    · exact .inr ⟨author, subject, ev, id, expected, rfl, rfl⟩
  | replay _ _ | now | newID | interDelete _ _ | loadDone _ _ _ _ =>
    exact .inl (congrArg (·.broker.stream) h)
  | interGet _ _ | interPut _ _ _ | loadWait _ => exact .inl (congrArg (·.broker.stream) h.2)
  | loadJoin r key =>
    cases a with
    | join f => exact .inl (congrArg (·.broker.stream) h.2)
    | lead f => exact .inl (congrArg (·.broker.stream) h.2.2)
  | lock site o =>
    rcases h with ⟨cell, _, _, _, rfl⟩
    exact .inl rfl
  | unlock o st =>
    rcases h with ⟨cell, _, rfl⟩
    exact .inl rfl

end RelayPoint.Signaling
