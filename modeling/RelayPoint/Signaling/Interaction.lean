import RelayPoint.Signaling.Provenance

/-!
# Interaction — one interaction as a state machine of its own

What a router does about one interaction, when nobody else writes and nothing fails, is a function of
the commands for that interaction.  This file states that function: the cached state, if there is one,
and the log, without the parts that the environment chooses (event ids and times) and without the
token, which counts the messages of all interactions.
-/

namespace RelayPoint.Signaling

/-! ## What the environment chooses -/

def Event.anonymous (e : Event) : Event :=
  { e with eventId := "", occurredAt := 0 }

namespace InteractionState

def withToken (st : InteractionState) (n : Nat) : InteractionState :=
  { st with streamSeq := n }

theorem rebuildFrom_withToken (facts : List Event) (last max : Nat) :
    rebuildFrom facts last max = (rebuildFrom facts 0 max).withToken last := by
  have key : ∀ (rest : List Event) (st : InteractionState),
      rest.foldl (rebuildStep max) (st.withToken last) =
        (rest.foldl (rebuildStep max) st).withToken last := by
    intro rest
    induction rest with
    | nil => exact fun _ => rfl
    | cons e rest ih => exact fun st => ih (rebuildStep max st e)
  exact key facts ⟨0, 0, .none, FifoCache.empty, ParticipationView.fold facts, ∅, false⟩

theorem rebuildFrom_anonymous (facts : List Event) (last max : Nat) :
    rebuildFrom (facts.map Event.anonymous) last max = rebuildFrom facts last max := by
  have hpart : ParticipationView.fold (facts.map Event.anonymous) = ParticipationView.fold facts := by
    simp only [ParticipationView.fold, List.foldl_map]
    rfl
  simp only [rebuildFrom, hpart, List.foldl_map]
  rfl

end InteractionState

open InteractionState

/-! ## The machine -/

structure Interaction where
  cached : Option InteractionState
  log : List Event

namespace Interaction

def start : Interaction :=
  ⟨none, []⟩

variable (max : Nat)

def state (x : Interaction) : InteractionState :=
  x.cached.getD (rebuildFrom x.log 0 max)

def opened (x : Interaction) : Interaction :=
  { x with cached := some (x.state max) }

def commit (x : Interaction) (st : InteractionState) (ev : Event) : Interaction :=
  ⟨if st.status = .ended then none else some st, x.log ++ [ev]⟩

def serveOrdinary (c : Ordinary) (x : Interaction) : CommandResult × Interaction :=
  let st := x.state max
  match c.precheck max st with
  | some out => (out.1, { x with cached := some out.2 })
  | none => (accepted c.cmd.commandId, x.commit (c.onCommit max st 0) (c.event st "" 0))

def serveFact (p : Privileged) (f : PlannedFact) (x : Interaction) : CommandResult × Interaction :=
  let st := x.state max
  match p.checkFact f st with
  | some res =>
    (res, { x with cached := if res.status = .accepted ∧ st.status = .ended then none else some st })
  | none =>
    let ev := p.factEvent f st "" 0
    (accepted (p.subID f), x.commit (p.onAck max f st ev 0) ev)

def serveFacts (p : Privileged) :
    Bool → List PlannedFact → Interaction → Option CommandResult × Interaction
  | _, [], x => (none, x)
  | later, f :: rest, x =>
    let out := x.serveFact max p f
    if out.1.status ≠ .accepted then
      (some { out.1 with
        commandId := p.cmd.commandId
        reason := if later then "transfer partially applied (" ++ out.1.reason ++ ")"
          else out.1.reason }, out.2)
    else serveFacts p true rest out.2

def servePrivileged (p : Privileged) (x : Interaction) : CommandResult × Interaction :=
  let st := x.state max
  if p.diverges st then (rejected p.cmd.commandId conflictReason, x.opened max)
  else
    match serveFacts max p false p.facts (x.opened max) with
    | (some failed, y) => (failed, y)
    | (none, y) => (accepted p.cmd.commandId, { y with cached := y.cached.map p.bindSubs })

def serve (call : Call) (x : Interaction) : CommandResult × Interaction :=
  match call.request with
  | .refuse res => (res, x)
  | .ordinary c => x.serveOrdinary max c
  | .privileged p => x.servePrivileged max p

def serveAll : List Call → Interaction → List (Call × CommandResult) × Interaction
  | [], x => ([], x)
  | call :: calls, x =>
    let rest := serveAll calls (x.serve max call).2
    ((call, (x.serve max call).1) :: rest.1, rest.2)

variable {x : Interaction} {st : InteractionState}

theorem opened_of_cached (h : x.cached = some st) : x.opened max = x := by
  simp only [opened, state, h, Option.getD_some]
  rw [← h]

theorem state_of_cached (h : x.cached = some st) : x.state max = st := by
  simp [state, h]

theorem serveOrdinary_opened (c : Ordinary) (x : Interaction) :
    (x.opened max).serveOrdinary max c = x.serveOrdinary max c :=
  rfl

theorem serveFact_opened (p : Privileged) (f : PlannedFact) (x : Interaction) :
    (x.opened max).serveFact max p f = x.serveFact max p f :=
  rfl

/-! ## The invariant -/

structure Agrees (log : List Event) (st : InteractionState) : Prop where
  unpoisoned : st.poisoned = false
  status : st.status = statusOf log
  complete : st.results.hasRoom max = true → ∀ e ∈ log,
    ∃ sr, st.results.lookup e.commandId = some sr ∧ sr.result.status = .accepted

structure Inv (x : Interaction) : Prop where
  ids : ∀ e ∈ x.log, e.commandId ≠ ""
  agrees : ∀ st, x.cached = some st → Agrees max x.log st

variable {max}

theorem inv_start : start.Inv max where
  ids := by simp [start]
  agrees := by simp [start]

variable {log : List Event} {st st' : InteractionState} {x : Interaction}

theorem agrees_rebuildFrom {last : Nat} (hids : ∀ e ∈ log, e.commandId ≠ "") :
    Agrees max log (rebuildFrom log last max) where
  unpoisoned := rebuildFrom_poisoned
  status := rebuildFrom_status
  complete := by
    -- a put that stays below the bound drops nothing, so what was entered is still there
    have key : (∀ e ∈ log, e.commandId ≠ "") → (rebuildFrom log last max).results.hasRoom max = true →
        ∀ e ∈ log, ∃ sr, (rebuildFrom log last max).results.lookup e.commandId = some sr ∧
          sr.result.status = .accepted := by
      apply rebuildFrom_induction (P := fun seen st => (∀ e ∈ seen, e.commandId ≠ "") →
        st.results.hasRoom max = true → ∀ e ∈ seen,
          ∃ sr, st.results.lookup e.commandId = some sr ∧ sr.result.status = .accepted)
      · simp
      · intro seen e st ih hids hroom e' he'
        have hne : e.commandId ≠ "" := hids e (by simp)
        simp only [rebuildStep, ne_eq, hne, not_false_eq_true, if_true] at hroom ⊢
        rcases FifoCache.put_of_hasRoom hroom with ⟨hold, hlookup⟩
        rw [hlookup]
        split
        · exact ⟨_, rfl, rfl⟩
        · next hother =>
            refine ih (fun e he => hids e (by simp [he])) hold e' ?_
            rcases List.mem_append.1 he' with he' | he'
            · exact he'
            · rw [List.mem_singleton.1 he'] at hother
              exact absurd rfl hother
    exact key hids

theorem Inv.state (h : x.Inv max) : Agrees max x.log (x.state max) := by
  unfold Interaction.state
  cases hc : x.cached with
  | none => exact agrees_rebuildFrom h.ids
  | some st => exact h.agrees st hc

theorem Inv.opened (h : x.Inv max) : (x.opened max).Inv max where
  ids := h.ids
  agrees := by
    rintro st hst
    cases hst
    exact h.state

/-! ### Ordinary commands -/

section Ordinary

variable {c : Ordinary} {res : CommandResult}
variable {sr : StoredResult}

theorem precheck_of_accepted (hl : st.results.lookup c.cmd.commandId = some sr)
    (hacc : sr.result.status = .accepted) : ∃ res, c.precheck max st = some (res, st) := by
  simp only [Ordinary.precheck, hl]
  split
  · exact ⟨_, rfl⟩
  · split
    all_goals exact ⟨_, rfl⟩

theorem Agrees.fresh (h : Agrees max log st) (hroom : st.results.hasRoom max = true)
    (hpre : c.precheck max st = none) : ∀ e ∈ log, e.commandId ≠ c.cmd.commandId := by
  intro e he heq
  rcases h.complete hroom e he with ⟨sr, hl, hacc⟩
  rw [heq] at hl
  rcases precheck_of_accepted hl hacc with ⟨res, hres⟩
  rw [hres] at hpre
  cases hpre

theorem Agrees.precheck (h : Agrees max log st) (hpre : c.precheck max st = some (res, st')) :
    Agrees max log st' := by
  have hsame : st' = st ∨ st' = st.putResult c.cmd.commandId ⟨c.payloadHash, res⟩ max := by
    rcases Ordinary.precheck_some hpre with ⟨_, _, hst, _⟩ | hgates
    · exact .inl hst
    · rcases Ordinary.gates_some hgates with ⟨_, hst⟩ | ⟨_, hst⟩
      · exact .inl hst
      · exact .inr hst
  rcases hsame with rfl | hput
  · exact h
  · refine ⟨by rw [hput]; exact h.unpoisoned, by rw [hput]; exact h.status, ?_⟩
    intro hroom e he
    -- an accepted entry would have been the answer, so the entry that is put is another one
    by_cases heq : e.commandId = c.cmd.commandId
    · by_cases hst : st' = st
      · rw [hst] at hroom ⊢
        exact h.complete hroom e he
      · have hold : st.results.hasRoom max = true := by
          rw [hput] at hroom
          exact (FifoCache.put_of_hasRoom hroom).1
        rcases h.complete hold e he with ⟨sr, hl, hacc⟩
        rw [heq] at hl
        rcases precheck_of_accepted hl hacc with ⟨res', hres'⟩
        rw [hres'] at hpre
        cases hpre
        exact absurd rfl hst
    · rw [hput] at hroom ⊢
      rcases FifoCache.put_of_hasRoom hroom with ⟨hold, hlookup⟩
      simp only [InteractionState.putResult, hlookup, heq]
      exact h.complete hold e he

theorem complete_put {results : FifoCache String StoredResult} {e : Event}
    (h : results.hasRoom max = true → ∀ e ∈ log,
      ∃ sr, results.lookup e.commandId = some sr ∧ sr.result.status = .accepted)
    (hacc : sr.result.status = .accepted)
    (hroom : (results.put e.commandId sr max).hasRoom max = true) :
    ∀ e' ∈ log ++ [e], ∃ sr', (results.put e.commandId sr max).lookup e'.commandId = some sr' ∧
      sr'.result.status = .accepted := by
  rcases FifoCache.put_of_hasRoom hroom with ⟨hold, hlookup⟩
  intro e' he'
  rw [hlookup]
  split
  · exact ⟨sr, rfl, hacc⟩
  · next hother =>
      rcases List.mem_append.1 he' with he' | he'
      · exact h hold e' he'
      · rw [List.mem_singleton.1 he'] at hother
        exact absurd rfl hother

theorem Agrees.onCommit (h : Agrees max log st) (eventId : String) (at_ n : Nat) :
    Agrees max (log ++ [c.event st eventId at_]) (c.onCommit max st n) where
  unpoisoned := h.unpoisoned
  status := by
    rw [statusOf_concat, ← h.status]
    rfl
  complete := fun hroom => complete_put h.complete rfl hroom

theorem Inv.concat {ev : Event} (h : x.Inv max) (hid : ev.commandId ≠ "")
    (hst : Agrees max (x.log ++ [ev]) st) : (Interaction.mk (some st) (x.log ++ [ev])).Inv max where
  ids := by
    intro e he
    rcases List.mem_append.1 he with he | he
    · exact h.ids e he
    · rw [List.mem_singleton.1 he]
      exact hid
  agrees := by
    rintro st' hst'
    cases hst'
    exact hst

theorem Inv.drop {ended : Prop} [Decidable ended] (h : (Interaction.mk (some st) log).Inv max) :
    (Interaction.mk (if ended then none else some st) log).Inv max := by
  split
  · exact ⟨h.ids, by simp⟩
  · exact h

theorem Inv.serveOrdinary (h : x.Inv max) (c : Ordinary) : (x.serveOrdinary max c).2.Inv max := by
  simp only [Interaction.serveOrdinary]
  cases hpre : c.precheck max (x.state max) with
  | some out =>
    refine ⟨h.ids, ?_⟩
    rintro st hst
    cases hst
    exact h.state.precheck hpre
  | none => exact (h.concat c.commandId_ne (h.state.onCommit "" 0 0)).drop

end Ordinary

/-! ### Privileged commands -/

section Privileged

variable {p : Privileged} {f : PlannedFact}

theorem Agrees.freshFact (h : Agrees max log st) (hroom : st.results.hasRoom max = true)
    (hcheck : p.checkFact f st = none) : ∀ e ∈ log, e.commandId ≠ p.subID f := by
  intro e he heq
  rcases h.complete hroom e he with ⟨sr, hl, hacc⟩
  rw [heq] at hl
  simp only [Privileged.checkFact, hl] at hcheck
  split at hcheck
  · cases hcheck
  · cases hcheck

theorem Agrees.onAck (h : Agrees max log st) (eventId : String) (at_ n : Nat) :
    Agrees max (log ++ [p.factEvent f st eventId at_])
      (p.onAck max f st (p.factEvent f st eventId at_) n) where
  unpoisoned := h.unpoisoned
  status := by
    rw [statusOf_concat, ← h.status]
    rfl
  complete := fun hroom => complete_put h.complete rfl hroom

theorem Agrees.bindSubs (h : Agrees max log st) : Agrees max log (p.bindSubs st) :=
  ⟨h.unpoisoned, h.status, h.complete⟩

theorem Inv.serveFact (h : x.Inv max) (p : Privileged) (f : PlannedFact) :
    (x.serveFact max p f).2.Inv max := by
  simp only [Interaction.serveFact]
  cases hcheck : p.checkFact f (x.state max) with
  | some res => exact h.opened.drop
  | none => exact (h.concat (p.subID_ne_empty f) (h.state.onAck "" 0 0)).drop

theorem Inv.status_of_dropped (h : x.Inv max) (hnone : (x.serveFact max p f).2.cached = none) :
    statusOf (x.serveFact max p f).2.log = .ended := by
  simp only [Interaction.serveFact] at hnone ⊢
  cases hcheck : p.checkFact f (x.state max) with
  | some res =>
    simp only [hcheck] at hnone ⊢
    split at hnone
    · next hended => exact h.state.status.symm.trans hended.2
    · cases hnone
  | none =>
    simp only [hcheck, commit] at hnone ⊢
    split at hnone
    · next hended => exact (h.state.onAck "" 0 0).status.symm.trans hended
    · cases hnone

theorem Inv.dropped_of_status (h : x.Inv max) (hacc : (x.serveFact max p f).1.status = .accepted)
    (hended : statusOf x.log = .ended) : (x.serveFact max p f).2.cached = none := by
  have hstatus : (x.state max).status = .ended := h.state.status.trans hended
  simp only [Interaction.serveFact] at hacc ⊢
  cases hcheck : p.checkFact f (x.state max) with
  | some res =>
    simp only [hcheck] at hacc ⊢
    exact if_pos ⟨hacc, hstatus⟩
  | none =>
    have hlegal := Privileged.checkFact_none hcheck
    rw [hstatus] at hlegal
    simp [legalTransition] at hlegal

theorem Inv.serveFacts {facts : List PlannedFact} : ∀ {later : Bool} {x : Interaction}, x.Inv max →
    (serveFacts max p later facts x).2.Inv max := by
  induction facts with
  | nil => exact fun h => h
  | cons f rest ih =>
    intro later x h
    simp only [Interaction.serveFacts]
    split
    · exact h.serveFact p f
    · exact ih (h.serveFact p f)

theorem Inv.servePrivileged (h : x.Inv max) (p : Privileged) :
    (x.servePrivileged max p).2.Inv max := by
  unfold Interaction.servePrivileged
  simp only
  split
  · exact h.opened
  · have hfacts : (Interaction.serveFacts max p false p.facts (x.opened max)).2.Inv max :=
      h.opened.serveFacts
    split
    · next failed y heq =>
        rw [heq] at hfacts
        exact hfacts
    · next y heq =>
        rw [heq] at hfacts
        refine ⟨hfacts.ids, ?_⟩
        intro st hst
        rcases Option.map_eq_some_iff.1 hst with ⟨st₀, hst₀, rfl⟩
        exact (hfacts.agrees st₀ hst₀).bindSubs

end Privileged

theorem Inv.serve (h : x.Inv max) (call : Call) : (x.serve max call).2.Inv max := by
  unfold Interaction.serve
  split
  · exact h
  · exact h.serveOrdinary _
  · exact h.servePrivileged _

end Interaction

end RelayPoint.Signaling
