import RelayPoint.Signaling.Isolation

/-!
# Eviction — serial runs that drop cached states

A cached state knows more than its log: the rejections of illegal transitions, and the bindings of
privileged commands.  A state that is dropped and rebuilt has lost the former and takes the latter
from the facts that landed.  Neither shows as long as every command id stands for one payload: a
remembered rejection is then one of the same command, which is judged again anyway, and a binding
never diverges.
-/

namespace RelayPoint.Signaling

open Concurrency Journal InteractionState

/-! ## One payload for every id -/

namespace Call

def marks (call : Call) : List (String × String) :=
  match call.request with
  | .ordinary c => [(c.cmd.commandId, c.payloadHash)]
  | _ => []

def factMarks (call : Call) : List (String × String) :=
  match call.request with
  | .privileged p => p.facts.map fun f => (p.subID f, p.factHash f)
  | _ => []

def bindings (call : Call) : List (String × List String) :=
  match call.request with
  | .privileged p => [(p.cmd.commandId, p.facts.map p.subID)]
  | _ => []

end Call

/-- An ordinary command's id stands for its payload, also where a privileged command gives that id to
one of its facts, and a privileged command's id for its facts. -/
structure OnePayload (calls : List Call) : Prop where
  mark : ∀ a ∈ calls.flatMap Call.marks,
    ∀ b ∈ calls.flatMap Call.marks ++ calls.flatMap Call.factMarks, b.1 = a.1 → b.2 = a.2
  binding : ∀ a ∈ calls.flatMap Call.bindings, ∀ b ∈ calls.flatMap Call.bindings,
    b.1 = a.1 → b.2 = a.2

theorem OnePayload.filter {calls : List Call} (h : OnePayload calls) (keep : Call → Bool) :
    OnePayload (calls.filter keep) := by
  have hsub : ∀ {β : Type} (g : Call → List β) {b : β}, b ∈ (calls.filter keep).flatMap g →
      b ∈ calls.flatMap g := by
    intro β g b hb
    rcases List.mem_flatMap.1 hb with ⟨call, hcall, hmem⟩
    exact List.mem_flatMap.2 ⟨call, List.mem_of_mem_filter hcall, hmem⟩
  refine ⟨?_, fun a ha b hb => h.binding a (hsub _ ha) b (hsub _ hb)⟩
  intro a ha b hb
  refine h.mark a (hsub _ ha) b ?_
  rcases List.mem_append.1 hb with hb | hb
  · exact List.mem_append_left _ (hsub _ hb)
  · exact List.mem_append_right _ (hsub _ hb)

def Ordinary.In (calls : List Call) (c : Ordinary) : Prop :=
  ∃ call ∈ calls, call.request = .ordinary c

def Privileged.In (calls : List Call) (p : Privileged) : Prop :=
  ∃ call ∈ calls, call.request = .privileged p

section Marks

variable {calls : List Call} {c : Ordinary} {p : Privileged}

theorem Ordinary.In.mark (h : c.In calls) :
    (c.cmd.commandId, c.payloadHash) ∈ calls.flatMap Call.marks := by
  rcases h with ⟨call, hmem, hreq⟩
  exact List.mem_flatMap.2 ⟨call, hmem, by simp [Call.marks, hreq]⟩

theorem Privileged.In.mark (h : p.In calls) {f : PlannedFact} (hf : f ∈ p.facts) :
    (p.subID f, p.factHash f) ∈ calls.flatMap Call.factMarks := by
  rcases h with ⟨call, hmem, hreq⟩
  refine List.mem_flatMap.2 ⟨call, hmem, ?_⟩
  simp only [Call.factMarks, hreq]
  exact List.mem_map.2 ⟨f, hf, rfl⟩

theorem Privileged.In.binding (h : p.In calls) :
    (p.cmd.commandId, p.facts.map p.subID) ∈ calls.flatMap Call.bindings := by
  rcases h with ⟨call, hmem, hreq⟩
  exact List.mem_flatMap.2 ⟨call, hmem, by simp [Call.bindings, hreq]⟩

theorem hash_ne_of_mark {id hash : String} (h : (id, hash) ∈ calls.flatMap Call.marks) :
    hash ≠ "" := by
  rcases List.mem_flatMap.1 h with ⟨call, _, hmark⟩
  unfold Call.marks at hmark
  split at hmark
  · next c _ =>
      cases List.mem_singleton.1 hmark
      exact hashPayload_ne_empty c.cmd
  · cases hmark

end Marks

/-! ## States of one log -/

section States

variable (max : Nat) (calls : List Call)

def Spare (id : String) (sr : StoredResult) : Prop :=
  sr.result.status ≠ .accepted ∧ (id, sr.payloadHash) ∈ calls.flatMap Call.marks

/-- The state agrees with a rebuilt one on the commands of the log, and what it knows beyond them makes
no difference to the calls. -/
structure Mirrors (log : List Event) (st : InteractionState) : Prop where
  core : st.core = coreOf log
  entries : st.results.hasRoom max = true → ∀ e ∈ log,
    st.results.lookup e.commandId = (rebuildFrom log 0 max).results.lookup e.commandId
  spare : ∀ id sr, st.results.lookup id = some sr → (∃ e ∈ log, e.commandId = id) ∨ Spare calls id sr
  bound : ∀ id subs, st.parents.lookup id = some subs →
    ∃ b ∈ calls.flatMap Call.bindings, b.1 = id ∧ ∀ s ∈ subs, s ∈ b.2

def Sourced (log : List Event) : Prop :=
  ∀ e ∈ log, isParticipationFact e.eventType = true →
    ∃ b ∈ calls.flatMap Call.bindings, b.1 = e.causedBy ∧ e.commandId ∈ b.2

variable {max calls} {log : List Event} {st st' st₁ st₂ : InteractionState} {c : Ordinary}
variable {p : Privileged} {f : PlannedFact}

theorem mirrors_rebuildFrom (hone : OnePayload calls) (hlog : Sourced calls log) :
    Mirrors max calls log (rebuildFrom log 0 max) where
  core := rebuildFrom_core
  entries := fun _ _ _ => rfl
  spare := by
    intro id sr h
    rcases rebuildFrom_results h with ⟨e, he, hid, _⟩
    exact .inl ⟨e, he, hid⟩
  bound := by
    refine rebuildFrom_induction (P := fun seen st => Sourced calls seen → ∀ id subs,
      st.parents.lookup id = some subs →
        ∃ b ∈ calls.flatMap Call.bindings, b.1 = id ∧ ∀ s ∈ subs, s ∈ b.2) ?_ ?_ hlog
    · intro _ _ id subs h
      simp at h
    · intro seen e st ih hseen id subs h
      have hold := ih (fun e' he' => hseen e' (by simp [he'])) id
      simp only [rebuildStep] at h
      split at h
      · next hfact =>
          by_cases hid : id = e.causedBy
          · subst hid
            rcases hseen e (by simp) hfact.1 with ⟨b, hb, hcause, hsub⟩
            refine ⟨b, hb, hcause, ?_⟩
            have hsubs : insert e.commandId ((st.parents.lookup e.causedBy).getD ∅) = subs := by
              simpa [recordSub] using h
            intro s hs
            rw [← hsubs] at hs
            rcases Finset.mem_insert.1 hs with rfl | hs
            · exact hsub
            · -- the earlier facts of the command are among the same ones
              cases hl : st.parents.lookup e.causedBy with
              | none => simp [hl] at hs
              | some recorded =>
                rcases hold recorded hl with ⟨b', hb', hcause', hsub'⟩
                rw [hl] at hs
                rw [← hone.binding b hb b' hb' (hcause'.trans hcause.symm)]
                exact hsub' s hs
          · refine hold subs ?_
            simpa [recordSub, hid] using h
      · exact hold subs h

theorem Interaction.Agrees.rebuilt_hasRoom (h : Interaction.Agrees max log st)
    (hroom : st.results.hasRoom max = true) :
    (rebuildFrom log 0 max).results.hasRoom max = true := by
  refine FifoCache.hasRoom_of_lookup ?_ hroom
  intro id sr hl
  rcases rebuildFrom_results hl with ⟨e, he, rfl, _⟩
  rcases h.complete hroom e he with ⟨sr', hsr', _⟩
  exact ⟨sr', hsr'⟩

theorem Mirrors.concat {ev : Event} (h : Mirrors max calls log st) (hid : ev.commandId ≠ "")
    (hagrees : Interaction.Agrees max (log ++ [ev]) st') (hcore : st'.core = coreOf (log ++ [ev]))
    (hresults : st'.results =
      st.results.put ev.commandId ⟨ev.payloadHash, accepted ev.commandId⟩ max)
    (hparents : st'.parents = st.parents) : Mirrors max calls (log ++ [ev]) st' where
  core := hcore
  entries := by
    intro hroom e he
    have hrebuilt := hagrees.rebuilt_hasRoom hroom
    rw [rebuildFrom_results_concat hid] at hrebuilt ⊢
    rw [hresults] at hroom ⊢
    rcases FifoCache.put_of_hasRoom hroom with ⟨hold, hlookup⟩
    rcases FifoCache.put_of_hasRoom hrebuilt with ⟨_, hlookup'⟩
    rw [hlookup, hlookup']
    split
    · rfl
    · next hother =>
        rcases List.mem_append.1 he with he | he
        · exact h.entries hold e he
        · rw [List.mem_singleton.1 he] at hother
          exact absurd rfl hother
  spare := by
    intro id sr hl
    rw [hresults] at hl
    rcases FifoCache.lookup_put hl with ⟨rfl, _⟩ | ⟨_, hl⟩
    · exact .inl ⟨ev, by simp, rfl⟩
    · rcases h.spare id sr hl with ⟨e, he, hide⟩ | hspare
      · exact .inl ⟨e, by simp [he], hide⟩
      · exact .inr hspare
  bound := hparents ▸ h.bound

theorem Ordinary.precheck_put {res : CommandResult} (h : c.precheck max st = some (res, st')) :
    st' = st ∨ st' = st.putResult c.cmd.commandId ⟨c.payloadHash, res⟩ max ∧
      res.status ≠ .accepted ∧
      ∀ sr, st.results.lookup c.cmd.commandId = some sr → sr.result.status ≠ .accepted := by
  rcases precheck_some h with ⟨_, _, rfl, _⟩ | hgates
  · exact .inl rfl
  · rcases gates_some hgates with ⟨_, rfl⟩ | ⟨rfl, hput⟩
    · exact .inl rfl
    · by_cases hsame : st' = st
      · exact .inl hsame
      · refine .inr ⟨hput, by simp, ?_⟩
        intro sr hl hacc
        rcases Interaction.precheck_of_accepted hl hacc with ⟨res', hres'⟩
        rw [h] at hres'
        cases hres'
        exact hsame rfl

theorem Mirrors.precheck {res : CommandResult} (h : Mirrors max calls log st) (hc : c.In calls)
    (hagrees : Interaction.Agrees max log st) (hpre : c.precheck max st = some (res, st')) :
    Mirrors max calls log st' := by
  rcases Ordinary.precheck_put hpre with rfl | ⟨rfl, hrejected, hfresh⟩
  · exact h
  · refine ⟨h.core, ?_, ?_, h.bound⟩
    · intro hroom e he
      rcases FifoCache.put_of_hasRoom hroom with ⟨hold, hlookup⟩
      have hne : e.commandId ≠ c.cmd.commandId := by
        intro heq
        rcases hagrees.complete hold e he with ⟨sr, hl, hacc⟩
        exact hfresh sr (heq ▸ hl) hacc
      simp only [putResult, hlookup, hne]
      exact h.entries hold e he
    · intro id sr hl
      rcases FifoCache.lookup_put hl with ⟨rfl, rfl⟩ | ⟨_, hl⟩
      · exact .inr ⟨hrejected, hc.mark⟩
      · exact h.spare id sr hl

theorem Mirrors.onCommit (h : Mirrors max calls log st) (hagrees : Interaction.Agrees max log st) :
    Mirrors max calls (log ++ [c.event st "" 0]) (c.onCommit max st 0) := by
  refine h.concat c.commandId_ne (hagrees.onCommit "" 0 0) ?_ rfl rfl
  have hseq : (c.event st "" 0).sequence = (coreOf log).seq + 1 := by
    rw [← h.core]
    rfl
  rw [coreOf_concat hseq, ← h.core, ParticipationView.applyFact_of_not_participation c.not_fact]
  rfl

theorem Mirrors.onAck (h : Mirrors max calls log st) (hagrees : Interaction.Agrees max log st) :
    Mirrors max calls (log ++ [p.factEvent f st "" 0])
      (p.onAck max f st (p.factEvent f st "" 0) 0) := by
  refine h.concat (p.subID_ne_empty f) (hagrees.onAck "" 0 0) ?_ rfl rfl
  have hseq : (p.factEvent f st "" 0).sequence = (coreOf log).seq + 1 := by
    rw [← h.core]
    rfl
  rw [coreOf_concat hseq, ← h.core]
  rfl

theorem Mirrors.bindSubs (h : Mirrors max calls log st) (hone : OnePayload calls) (hp : p.In calls) :
    Mirrors max calls log (p.bindSubs st) where
  core := h.core
  entries := h.entries
  spare := h.spare
  bound := by
    intro id subs hl
    by_cases hid : id = p.cmd.commandId
    · subst hid
      have hsubs : (st.parents.lookup p.cmd.commandId).getD ∅ ∪ (p.facts.map p.subID).toFinset =
          subs := by
        simpa [Privileged.bindSubs] using hl
      refine ⟨_, hp.binding, rfl, ?_⟩
      intro s hs
      rw [← hsubs] at hs
      rcases Finset.mem_union.1 hs with hs | hs
      · cases hold : st.parents.lookup p.cmd.commandId with
        | none => simp [hold] at hs
        | some recorded =>
          rcases h.bound _ recorded hold with ⟨b, hb, hcause, hsub⟩
          rw [hold] at hs
          rw [← hone.binding _ hp.binding b hb hcause]
          exact hsub s hs
      · exact List.mem_toFinset.1 hs
    · exact h.bound id subs (by simpa [Privileged.bindSubs, hid] using hl)

/-! ### Decisions -/

theorem Mirrors.not_diverges (h : Mirrors max calls log st) (hone : OnePayload calls)
    (hp : p.In calls) : p.diverges st = false := by
  unfold Privileged.diverges
  split
  · next recorded hl =>
      rcases h.bound _ recorded hl with ⟨b, hb, hcause, hsub⟩
      rw [hone.binding _ hp.binding b hb hcause] at hsub
      simpa using hsub
  · rfl

theorem Mirrors.lookup_alike (h₁ : Mirrors max calls log st₁) (h₂ : Mirrors max calls log st₂)
    (hroom₁ : st₁.results.hasRoom max = true) (hroom₂ : st₂.results.hasRoom max = true) (id : String) :
    st₁.results.lookup id = st₂.results.lookup id ∨
      (∀ sr, st₁.results.lookup id = some sr → Spare calls id sr) ∧
        ∀ sr, st₂.results.lookup id = some sr → Spare calls id sr := by
  by_cases hlog : ∃ e ∈ log, e.commandId = id
  · rcases hlog with ⟨e, he, rfl⟩
    exact .inl ((h₁.entries hroom₁ e he).trans (h₂.entries hroom₂ e he).symm)
  · exact .inr ⟨fun sr hl => (h₁.spare id sr hl).resolve_left hlog,
      fun sr hl => (h₂.spare id sr hl).resolve_left hlog⟩

theorem Ordinary.precheck_of_spare (hone : OnePayload calls) (hc : c.In calls)
    (h : ∀ sr, st.results.lookup c.cmd.commandId = some sr → Spare calls c.cmd.commandId sr) :
    c.precheck max st = c.gates max st := by
  unfold precheck
  split
  · next prev hprev =>
      rcases h prev hprev with ⟨hrejected, hmark⟩
      have hsame : prev.payloadHash = c.payloadHash :=
        hone.mark _ hc.mark _ (List.mem_append_left _ hmark) rfl
      rw [if_neg (hash_ne_of_mark hmark), if_neg (not_not.2 hsame), if_neg hrejected]
  · rfl

theorem Privileged.checkFact_of_spare (hone : OnePayload calls) (hp : p.In calls) (hf : f ∈ p.facts)
    (h : ∀ sr, st.results.lookup (p.subID f) = some sr → Spare calls (p.subID f) sr) :
    p.checkFact f st = p.factGate f st := by
  unfold checkFact
  split
  · next prev hprev =>
      rcases h prev hprev with ⟨hrejected, hmark⟩
      have hsame : p.factHash f = prev.payloadHash :=
        hone.mark _ hmark _ (List.mem_append_right _ (hp.mark hf)) rfl
      rw [if_neg (fun hne => hne.2 hsame.symm), if_neg hrejected]
  · rfl

theorem Ordinary.gates_alike (hcore : st₁.core = st₂.core) :
    (c.gates max st₁).map Prod.fst = (c.gates max st₂).map Prod.fst := by
  have hpart : st₁.part = st₂.part := congrArg Core.part hcore
  have hstatus : st₁.status = st₂.status := congrArg Core.status hcore
  simp only [gates, hpart, hstatus]
  split
  · rfl
  · split
    · rfl
    · rfl

theorem Mirrors.precheck_alike (h₁ : Mirrors max calls log st₁) (h₂ : Mirrors max calls log st₂)
    (hroom₁ : st₁.results.hasRoom max = true) (hroom₂ : st₂.results.hasRoom max = true)
    (hone : OnePayload calls) (hc : c.In calls) :
    (c.precheck max st₁).map Prod.fst = (c.precheck max st₂).map Prod.fst := by
  have hgates : (c.gates max st₁).map Prod.fst = (c.gates max st₂).map Prod.fst :=
    Ordinary.gates_alike (h₁.core.trans h₂.core.symm)
  rcases h₁.lookup_alike h₂ hroom₁ hroom₂ c.cmd.commandId with hsame | ⟨hspare₁, hspare₂⟩
  · simp only [Ordinary.precheck, hsame]
    split
    · split
      · rfl
      · split
        · rfl
        · split
          · rfl
          · exact hgates
    · exact hgates
  · rw [Ordinary.precheck_of_spare hone hc hspare₁, Ordinary.precheck_of_spare hone hc hspare₂]
    exact hgates

theorem Mirrors.checkFact_alike (h₁ : Mirrors max calls log st₁) (h₂ : Mirrors max calls log st₂)
    (hroom₁ : st₁.results.hasRoom max = true) (hroom₂ : st₂.results.hasRoom max = true)
    (hone : OnePayload calls) (hp : p.In calls) (hf : f ∈ p.facts) :
    p.checkFact f st₁ = p.checkFact f st₂ := by
  have hstatus : st₁.status = st₂.status := congrArg Core.status (h₁.core.trans h₂.core.symm)
  have hgate : p.factGate f st₁ = p.factGate f st₂ := by
    simp only [Privileged.factGate, hstatus]
  rcases h₁.lookup_alike h₂ hroom₁ hroom₂ (p.subID f) with hsame | ⟨hspare₁, hspare₂⟩
  · simp only [Privileged.checkFact, hsame, hgate]
  · rw [Privileged.checkFact_of_spare hone hp hf hspare₁,
      Privileged.checkFact_of_spare hone hp hf hspare₂, hgate]

end States

/-! ## Interactions with one log -/

namespace Interaction

variable (max : Nat) (calls : List Call)

structure Faithful (x : Interaction) : Prop where
  inv : x.Inv max
  sourced : Sourced calls x.log
  mirrors : ∀ st, x.cached = some st → Mirrors max calls x.log st

def Fits (x : Interaction) : Prop :=
  ∀ st, x.cached = some st → st.results.hasRoom max = true

def dropped (x : Interaction) : Interaction :=
  ⟨none, x.log⟩

variable {max calls} {x y : Interaction} {c : Ordinary} {p : Privileged} {f : PlannedFact}
variable {facts : List PlannedFact} {st : InteractionState}

theorem Faithful.state (h : x.Faithful max calls) (hone : OnePayload calls) :
    Mirrors max calls x.log (x.state max) := by
  unfold Interaction.state
  cases hc : x.cached with
  | none => exact mirrors_rebuildFrom hone h.sourced
  | some st => exact h.mirrors st hc

theorem Faithful.opened (h : x.Faithful max calls) (hone : OnePayload calls) :
    (x.opened max).Faithful max calls where
  inv := h.inv.opened
  sourced := h.sourced
  mirrors := by
    rintro st hst
    cases hst
    exact h.state hone

theorem Faithful.drop {ended : Prop} [Decidable ended] {log : List Event}
    (h : (Interaction.mk (some st) log).Faithful max calls) :
    (Interaction.mk (if ended then none else some st) log).Faithful max calls := by
  refine ⟨h.inv.drop, h.sourced, ?_⟩
  intro st' hst'
  split at hst'
  · cases hst'
  · exact h.mirrors st' hst'

theorem Faithful.dropped (h : x.Faithful max calls) : x.dropped.Faithful max calls :=
  ⟨⟨h.inv.ids, nofun⟩, h.sourced, nofun⟩

theorem Fits.dropped : x.dropped.Fits max :=
  nofun

theorem Faithful.concat {ev : Event} (h : x.Faithful max calls) (hid : ev.commandId ≠ "")
    (hsource : isParticipationFact ev.eventType = true →
      ∃ b ∈ calls.flatMap Call.bindings, b.1 = ev.causedBy ∧ ev.commandId ∈ b.2)
    (hagrees : Agrees max (x.log ++ [ev]) st) (hst : Mirrors max calls (x.log ++ [ev]) st) :
    (Interaction.mk (some st) (x.log ++ [ev])).Faithful max calls where
  inv := h.inv.concat hid hagrees
  sourced := by
    intro e he
    rcases List.mem_append.1 he with he | he
    · exact h.sourced e he
    · rw [List.mem_singleton.1 he]
      exact hsource
  mirrors := by
    rintro st' hst'
    cases hst'
    exact hst

theorem Faithful.serveOrdinary (h : x.Faithful max calls) (hone : OnePayload calls)
    (hc : c.In calls) : (x.serveOrdinary max c).2.Faithful max calls := by
  simp only [Interaction.serveOrdinary]
  cases hpre : c.precheck max (x.state max) with
  | some out =>
    refine ⟨⟨h.inv.ids, ?_⟩, h.sourced, ?_⟩
    · rintro st hst
      cases hst
      exact h.inv.state.precheck hpre
    · rintro st hst
      cases hst
      exact (h.state hone).precheck hc h.inv.state hpre
  | none =>
    have hsource : isParticipationFact c.cmd.type = true →
        ∃ b ∈ calls.flatMap Call.bindings, b.1 = c.cmd.commandId ∧ c.cmd.commandId ∈ b.2 := by
      intro hfact
      rw [c.not_fact] at hfact
      cases hfact
    exact (h.concat c.commandId_ne hsource (h.inv.state.onCommit "" 0 0)
      ((h.state hone).onCommit h.inv.state)).drop

theorem Faithful.serveFact (h : x.Faithful max calls) (hone : OnePayload calls) (hp : p.In calls)
    (hf : f ∈ p.facts) : (x.serveFact max p f).2.Faithful max calls := by
  simp only [Interaction.serveFact]
  cases hcheck : p.checkFact f (x.state max) with
  | some res => exact (h.opened hone).drop
  | none =>
    exact (h.concat (p.subID_ne_empty f)
      (fun _ => ⟨_, hp.binding, rfl, List.mem_map.2 ⟨f, hf, rfl⟩⟩) (h.inv.state.onAck "" 0 0)
      ((h.state hone).onAck h.inv.state)).drop

theorem Faithful.serveFacts (hone : OnePayload calls) (hp : p.In calls) : ∀ {later : Bool}
    {x : Interaction}, (∀ f ∈ facts, f ∈ p.facts) → x.Faithful max calls →
      (serveFacts max p later facts x).2.Faithful max calls := by
  induction facts with
  | nil => exact fun _ h => h
  | cons f rest ih =>
    intro later x hfacts h
    have hhead := h.serveFact hone hp (hfacts f (by simp))
    simp only [Interaction.serveFacts]
    split
    · exact hhead
    · exact ih (fun f' hf' => hfacts f' (by simp [hf'])) hhead

theorem Faithful.servePrivileged (h : x.Faithful max calls) (hone : OnePayload calls)
    (hp : p.In calls) : (x.servePrivileged max p).2.Faithful max calls := by
  have hfacts : (Interaction.serveFacts max p false p.facts (x.opened max)).2.Faithful max calls :=
    (h.opened hone).serveFacts hone hp fun _ hf => hf
  unfold Interaction.servePrivileged
  simp only
  split
  · exact h.opened hone
  · split
    · next failed y heq =>
        rw [heq] at hfacts
        exact hfacts
    · next y heq =>
        rw [heq] at hfacts
        refine ⟨⟨hfacts.inv.ids, ?_⟩, hfacts.sourced, ?_⟩
        · intro st hst
          rcases Option.map_eq_some_iff.1 hst with ⟨st₀, hst₀, rfl⟩
          exact (hfacts.inv.agrees st₀ hst₀).bindSubs
        · intro st hst
          rcases Option.map_eq_some_iff.1 hst with ⟨st₀, hst₀, rfl⟩
          exact (hfacts.mirrors st₀ hst₀).bindSubs hone hp

variable {call : Call} {out : List (Call × CommandResult)}

theorem Faithful.serve (h : x.Faithful max calls) (hone : OnePayload calls) (hcall : call ∈ calls) :
    (x.serve max call).2.Faithful max calls := by
  unfold Interaction.serve
  split
  · exact h
  · next c hreq => exact h.serveOrdinary hone ⟨call, hcall, hreq⟩
  · next p hreq => exact h.servePrivileged hone ⟨call, hcall, hreq⟩

/-! ### Answers -/

section Answers

variable (hone : OnePayload calls) (hlog : x.log = y.log)
variable (hx : x.Faithful max calls) (hy : y.Faithful max calls)

include hlog hx hy

theorem eq_or_hasRoom (hfx : x.Fits max) (hfy : y.Fits max) :
    x = y ∨ ((x.state max).results.hasRoom max = true ∧ (y.state max).results.hasRoom max = true) := by
  cases hcx : x.cached with
  | none =>
    cases hcy : y.cached with
    | none =>
      left
      cases x
      cases y
      cases hcx
      cases hcy
      cases hlog
      rfl
    | some st =>
      have hroom := hfy st hcy
      refine .inr ⟨?_, by rwa [state_of_cached max hcy]⟩
      have hrebuilt := (hy.inv.agrees st hcy).rebuilt_hasRoom hroom
      rwa [Interaction.state, hcx, hlog]
  | some st =>
    have hroom := hfx st hcx
    refine .inr ⟨by rwa [state_of_cached max hcx], ?_⟩
    cases hcy : y.cached with
    | none =>
      have hrebuilt := (hx.inv.agrees st hcx).rebuilt_hasRoom hroom
      rwa [Interaction.state, hcy, ← hlog]
    | some st' =>
      rw [state_of_cached max hcy]
      exact hfy st' hcy

include hone

theorem serveOrdinary_alike (hrx : (x.state max).results.hasRoom max = true)
    (hry : (y.state max).results.hasRoom max = true) (hc : c.In calls) :
    (x.serveOrdinary max c).1 = (y.serveOrdinary max c).1 ∧
      (x.serveOrdinary max c).2.log = (y.serveOrdinary max c).2.log := by
  have hmx := hx.state hone
  have hmy := hy.state hone
  rw [hlog] at hmx
  have hsame := hmx.precheck_alike hmy hrx hry hone hc
  have hseq : (x.state max).seq = (y.state max).seq :=
    congrArg Core.seq (hmx.core.trans hmy.core.symm)
  simp only [Interaction.serveOrdinary]
  cases hpx : c.precheck max (x.state max) with
  | some out =>
    rw [hpx] at hsame
    rcases Option.map_eq_some_iff.1 hsame.symm with ⟨out', hpy, hout⟩
    rw [hpy]
    exact ⟨hout.symm, hlog⟩
  | none =>
    rw [hpx] at hsame
    rw [Option.map_eq_none_iff.1 hsame.symm]
    exact ⟨rfl, by simp only [commit, hlog, Ordinary.event, hseq]⟩

end Answers

theorem hasRoom_of_serveFacts : ∀ {facts : List PlannedFact} {later : Bool} {x : Interaction}
    {st : InteractionState}, (∀ f ∈ facts, f ∈ p.facts) → x.cached = some st → st.status ≠ .ended →
      (serveFacts max p later facts x).2.Fits max → st.results.hasRoom max = true := by
  intro facts
  induction facts with
  | nil => exact fun _ hc _ hfits => hfits _ hc
  | cons f rest ih =>
    intro later x st hfacts hc hstatus hfits
    have hstate := state_of_cached max hc
    -- what the first fact leaves is in the cache, and has no fewer entries
    have hhead : ∃ st', (x.serveFact max p f).2.cached = some st' ∧ st'.status ≠ .ended ∧
        (st'.results.hasRoom max = true → st.results.hasRoom max = true) := by
      simp only [Interaction.serveFact, hstate]
      cases p.checkFact f st with
      | some res => exact ⟨st, if_neg fun h => hstatus h.2, hstatus, id⟩
      | none =>
        have hkept : (p.onAck max f st (p.factEvent f st "" 0) 0).status ≠ .ended := by
          rw [show (p.onAck max f st (p.factEvent f st "" 0) 0).status =
            transition st.status f.eventType from rfl,
            transition_of_participation (p.isParticipationFact (hfacts f (by simp)))]
          exact hstatus
        exact ⟨_, if_neg hkept, hkept, fun hroom => (FifoCache.put_of_hasRoom hroom).1⟩
    rcases hhead with ⟨st', hc', hstatus', hroom⟩
    refine hroom ?_
    simp only [Interaction.serveFacts] at hfits
    split at hfits
    · exact hfits st' hc'
    · exact ih (fun f' hf' => hfacts f' (by simp [hf'])) hc' hstatus' hfits

theorem serveFacts_alike (hone : OnePayload calls) (hp : p.In calls) :
    ∀ {facts : List PlannedFact} {later : Bool} {x y : Interaction}, (∀ f ∈ facts, f ∈ p.facts) →
      x.log = y.log → x.Faithful max calls → y.Faithful max calls →
      (x = y ∨ ∃ stx sty, x.cached = some stx ∧ y.cached = some sty ∧
        (stx.status = .ended → stx.results.hasRoom max = true) ∧
        (sty.status = .ended → sty.results.hasRoom max = true)) →
      (serveFacts max p later facts x).2.Fits max → (serveFacts max p later facts y).2.Fits max →
      (serveFacts max p later facts x).1 = (serveFacts max p later facts y).1 ∧
        (serveFacts max p later facts x).2.log = (serveFacts max p later facts y).2.log := by
  intro facts
  induction facts with
  | nil => exact fun _ hlog _ _ _ _ _ => ⟨rfl, hlog⟩
  | cons f rest ih =>
    intro later x y hfacts hlog hx hy hcached hfx hfy
    rcases hcached with rfl | ⟨stx, sty, hcx, hcy, hendx, hendy⟩
    · exact ⟨rfl, rfl⟩
    have hf : f ∈ p.facts := hfacts f (by simp)
    have hrest : ∀ f' ∈ rest, f' ∈ p.facts := fun f' hf' => hfacts f' (by simp [hf'])
    have hrx : stx.results.hasRoom max = true := by
      by_cases hended : stx.status = .ended
      · exact hendx hended
      · exact hasRoom_of_serveFacts hfacts hcx hended hfx
    have hry : sty.results.hasRoom max = true := by
      by_cases hended : sty.status = .ended
      · exact hendy hended
      · exact hasRoom_of_serveFacts hfacts hcy hended hfy
    have hmx := hx.mirrors stx hcx
    have hmy := hy.mirrors sty hcy
    rw [hlog] at hmx
    have hcore := hmx.core.trans hmy.core.symm
    have hcheck := hmx.checkFact_alike hmy hrx hry hone hp hf
    have hnextx := hx.serveFact hone hp hf
    have hnexty := hy.serveFact hone hp hf
    have hlegal : p.checkFact f sty = none → sty.status ≠ .ended := by
      intro hnone hended
      have := Privileged.checkFact_none hnone
      simp [legalTransition, hended] at this
    -- the first fact gets the same reply and leaves both in the cache, or neither
    have hhead : (x.serveFact max p f).1 = (y.serveFact max p f).1 ∧
        (x.serveFact max p f).2.log = (y.serveFact max p f).2.log ∧
        ((x.serveFact max p f).2 = (y.serveFact max p f).2 ∨
          ∃ stx sty, (x.serveFact max p f).2.cached = some stx ∧
            (y.serveFact max p f).2.cached = some sty ∧
            (stx.status = .ended → stx.results.hasRoom max = true) ∧
            (sty.status = .ended → sty.results.hasRoom max = true)) := by
      have hseq : stx.seq = sty.seq := congrArg Core.seq hcore
      have hstatus : stx.status = sty.status := congrArg Core.status hcore
      simp only [Interaction.serveFact, state_of_cached max hcx, state_of_cached max hcy, hcheck]
      cases hres : p.checkFact f sty with
      | some res =>
        refine ⟨rfl, hlog, ?_⟩
        by_cases hdrop : res.status = .accepted ∧ sty.status = .ended
        · left
          simp only [hstatus, hdrop, and_self, if_true, hlog]
        · exact .inr ⟨stx, sty, by simp only [hstatus, hdrop, if_false], if_neg hdrop, hendx, hendy⟩
      | none =>
        have hkept : transition sty.status f.eventType ≠ .ended := by
          rw [transition_of_participation (p.isParticipationFact hf)]
          exact hlegal hres
        have hkept' : transition stx.status f.eventType ≠ .ended := hstatus ▸ hkept
        exact ⟨rfl, by simp only [commit, hlog, Privileged.factEvent, hseq], .inr ⟨_, _,
          if_neg hkept', if_neg hkept, fun h => absurd h hkept', fun h => absurd h hkept⟩⟩
    rcases hhead with ⟨hreply, hlog', hcached'⟩
    simp only [serveFacts, hreply] at hfx hfy ⊢
    split
    · exact ⟨rfl, hlog'⟩
    · next hacc =>
        rw [if_neg hacc] at hfx hfy
        exact ih hrest hlog' hnextx hnexty hcached' hfx hfy

theorem servePrivileged_alike (hone : OnePayload calls) (hp : p.In calls) (hlog : x.log = y.log)
    (hx : x.Faithful max calls) (hy : y.Faithful max calls)
    (hrx : (x.state max).results.hasRoom max = true) (hry : (y.state max).results.hasRoom max = true)
    (hfx : (x.servePrivileged max p).2.Fits max) (hfy : (y.servePrivileged max p).2.Fits max) :
    (x.servePrivileged max p).1 = (y.servePrivileged max p).1 ∧
      (x.servePrivileged max p).2.log = (y.servePrivileged max p).2.log := by
  -- what a binding adds is no entry
  have hfits : ∀ {z : Interaction}, z.Faithful max calls → (z.servePrivileged max p).2.Fits max →
      (serveFacts max p false p.facts (z.opened max)).2.Fits max := by
    intro z hz hfz st hst
    simp only [Interaction.servePrivileged, (hz.state hone).not_diverges hone hp, Bool.false_eq_true,
      if_false] at hfz
    split at hfz
    · next failed z' heq =>
        rw [heq] at hst
        exact hfz st hst
    · next z' heq =>
        rw [heq] at hst
        exact hfz (p.bindSubs st) (Option.map_eq_some_iff.2 ⟨st, hst, rfl⟩)
  have hlog' : (x.opened max).log = (y.opened max).log := hlog
  have hsame := serveFacts_alike hone hp (fun _ hf => hf) hlog' (hx.opened hone) (hy.opened hone)
    (.inr ⟨_, _, rfl, rfl, fun _ => hrx, fun _ => hry⟩) (hfits hx hfx) (hfits hy hfy)
  simp only [Interaction.servePrivileged, (hx.state hone).not_diverges hone hp,
    (hy.state hone).not_diverges hone hp]
  rcases hxs : serveFacts max p false p.facts (x.opened max) with ⟨resx, x'⟩
  rcases hys : serveFacts max p false p.facts (y.opened max) with ⟨resy, y'⟩
  rw [hxs, hys] at hsame
  rcases hsame with ⟨rfl, hlog'⟩
  cases resx with
  | some failed | none => exact ⟨rfl, hlog'⟩

variable (max calls) in
structure Twins (x y : Interaction) : Prop where
  log : x.log = y.log
  left : x.Faithful max calls
  right : y.Faithful max calls
  fitsLeft : x.Fits max
  fitsRight : y.Fits max

theorem Twins.serve (h : Twins max calls x y) (hone : OnePayload calls) (hcall : call ∈ calls)
    (hfx : (x.serve max call).2.Fits max) (hfy : (y.serve max call).2.Fits max) :
    (x.serve max call).1 = (y.serve max call).1 ∧
      Twins max calls (x.serve max call).2 (y.serve max call).2 := by
  have hsame : (x.serve max call).1 = (y.serve max call).1 ∧
      (x.serve max call).2.log = (y.serve max call).2.log := by
    rcases eq_or_hasRoom h.log h.left h.right h.fitsLeft h.fitsRight with rfl | ⟨hrx, hry⟩
    · exact ⟨rfl, rfl⟩
    · unfold Interaction.serve at hfx hfy ⊢
      cases hreq : call.request with
      | refuse res => exact ⟨rfl, h.log⟩
      | ordinary c => exact serveOrdinary_alike hone h.log h.left h.right hrx hry ⟨call, hcall, hreq⟩
      | privileged p =>
        rw [hreq] at hfx hfy
        exact servePrivileged_alike hone ⟨call, hcall, hreq⟩ h.log h.left h.right hrx hry hfx hfy
  exact ⟨hsame.1, hsame.2, h.left.serve hone hcall, h.right.serve hone hcall, hfx, hfy⟩

theorem Twins.dropLeft (h : Twins max calls x y) : Twins max calls x.dropped y :=
  ⟨h.log, h.left.dropped, h.right, .dropped, h.fitsRight⟩

theorem Twins.dropRight (h : Twins max calls x y) : Twins max calls x y.dropped :=
  ⟨h.log, h.left, h.right.dropped, h.fitsLeft, .dropped⟩

theorem twins_start : Twins max calls start start :=
  have hstart : start.Faithful max calls := ⟨inv_start, nofun, nofun⟩
  ⟨rfl, hstart, hstart, nofun, nofun⟩

/-! ### Runs of one interaction -/

variable (max) in
inductive Served : Interaction → List (Call × CommandResult) → Interaction → Prop
  | done (x : Interaction) : Served x [] x
  | drop {x y : Interaction} {out : List (Call × CommandResult)} :
      Served x.dropped out y → Served x out y
  | call {x y : Interaction} {call : Call} {out : List (Call × CommandResult)} :
      (x.serve max call).2.Fits max → Served (x.serve max call).2 out y →
      Served x ((call, (x.serve max call).1) :: out) y

theorem Served.log_of_nil (h : Served max x out y) (hout : out = []) : x.log = y.log := by
  induction h with
  | done x => rfl
  | drop _ ih => exact ih hout
  | call _ _ _ => cases hout

theorem Served.uncons (h : Served max x out y) {res : CommandResult}
    {rest : List (Call × CommandResult)} (hout : out = (call, res) :: rest) :
    ∃ z, (z = x ∨ z = x.dropped) ∧ res = (z.serve max call).1 ∧ (z.serve max call).2.Fits max ∧
      Served max (z.serve max call).2 rest y := by
  induction h with
  | done x => cases hout
  | drop _ ih =>
    rcases ih hout with ⟨z, rfl | rfl, hserved⟩
    all_goals exact ⟨_, .inr rfl, hserved⟩
  | call hfits hserved _ =>
    cases hout
    exact ⟨_, .inl rfl, rfl, hfits, hserved⟩

theorem Twins.served (hone : OnePayload calls) {x' : Interaction} (hrun : Served max x out x') :
    ∀ {y y' : Interaction} {out' : List (Call × CommandResult)}, Twins max calls x y →
      Served max y out' y' → out.map Prod.fst = out'.map Prod.fst →
      (∀ reply ∈ out, reply.1 ∈ calls) → out = out' ∧ x'.log = y'.log := by
  induction hrun with
  | done x =>
    intro y y' out' h hrun' hcalls _
    have hnil : out' = [] := List.map_eq_nil_iff.1 hcalls.symm
    exact ⟨hnil.symm, h.log.trans (hrun'.log_of_nil hnil)⟩
  | drop _ ih => exact fun h => ih h.dropLeft
  | @call x _ _ _ hfits _ ih =>
    intro y y' out' h hrun' hcalls hmem
    cases out' with
    | nil => cases hcalls
    | cons reply rest =>
      rcases reply with ⟨call', res⟩
      rcases List.cons.inj hcalls with ⟨rfl, hrest⟩
      rcases hrun'.uncons rfl with ⟨z, hz, rfl, hfits', hserved⟩
      have hxz : Twins max calls x z := by
        rcases hz with rfl | rfl
        · exact h
        · exact h.dropRight
      rcases hxz.serve hone (hmem _ List.mem_cons_self) hfits hfits' with ⟨hreply, hnext⟩
      rcases ih hnext hserved hrest fun reply hr => hmem reply (List.mem_cons_of_mem _ hr) with
        ⟨rfl, hlog⟩
      exact ⟨by rw [hreply], hlog⟩

end Interaction

/-! ## Serial runs with evictions -/

/-- A turn of the router, or the loss of a cached state: by age, or because the cache is full. -/
inductive Round where
  | turn (turn : Turn)
  | drop (key : String)

def Round.turn? : Round → Option Turn
  | .turn t => some t
  | .drop _ => none

def callsOfRounds (rounds : List Round) : List Call :=
  callsOf (rounds.filterMap Round.turn?)

def serveRounds (r : Router) : List Round → World → Option (List (Call × CommandResult) × World)
  | [], w => some ([], w)
  | .drop key :: rounds, w =>
    serveRounds r rounds { w with inter := setAt w.inter r.id key none }
  | .turn turn :: rounds, w =>
    match serveTurns r [turn] w with
    | none => none
    | some (out, w') => (serveRounds r rounds w').map fun rest => (out ++ rest.1, rest.2)

section Runs

variable {r : Router} {t i : String} {w w' : World} {x : Interaction}
variable {out : List (Call × CommandResult)}

theorem Refines.drop (h : Refines r t i w x) (key : String) :
    ∃ y, (y = x ∨ y = x.dropped) ∧
      Refines r t i { w with inter := setAt w.inter r.id key none } y := by
  by_cases hkey : stateKey t i = key
  · refine ⟨x.dropped, .inr rfl, ⟨h.sound, h.grounded, h.facts, ⟨h.inv.ids, nofun⟩, ?_⟩, nofun⟩
    simp [setAt, hkey]
  · have hsame : setAt w.inter r.id key none r.id (stateKey t i) = w.inter r.id (stateKey t i) :=
      setAt_other hkey
    refine ⟨x, .inl rfl, ⟨h.sound, h.grounded, h.facts, h.inv, ?_⟩, ?_⟩
    · exact fun hnone => hsame.trans (h.absent hnone)
    · intro st hst
      rcases h.present st hst with ⟨hroom, o, ho, hcell⟩
      exact ⟨hroom, o, hsame.trans ho, hcell⟩

theorem Refines.fits (h : Refines r t i w x) : x.Fits r.maxResults :=
  fun st hst => (h.present st hst).1

theorem serveTurns_one {turn : Turn} (h : serveTurns r [turn] w = some (out, w')) :
    (∃ id, turn = .forget id ∧ out = [] ∧ w' = { w with broker := w.broker.forget id }) ∨
      ∃ call choices res, turn = .command call choices ∧ call.router = r ∧ out = [(call, res)] ∧
        execCalmly r.maxResults call choices w = some (res, w') := by
  cases turn with
  | forget id =>
    cases h
    exact .inl ⟨id, rfl, rfl, rfl⟩
  | command call choices =>
    simp only [serveTurns] at h
    split at h
    · next hr =>
        split at h
        · cases h
        · next res w₁ hexec =>
            cases h
            exact .inr ⟨call, choices, res, rfl, hr, rfl, hexec⟩
    · cases h

theorem serveRounds_refines (ht : DotFree t) (hi : DotFree i) {rounds : List Round} :
    ∀ {x : Interaction} {w w' : World} {out : List (Call × CommandResult)},
      Apart t i (callsOfRounds rounds) → Typed w → Refines r t i w x →
      serveRounds r rounds w = some (out, w') →
      ∃ x', Interaction.Served r.maxResults x (out.filter fun reply => reply.1.on t i) x' ∧
        Refines r t i w' x' := by
  induction rounds with
  | nil =>
    intro x w w' out _ _ h hrun
    cases hrun
    exact ⟨x, .done x, h⟩
  | cons round rounds ih =>
    intro x w w' out hapart htyped h hrun
    cases round with
    | drop key =>
      have htyped' : Typed { w with inter := setAt w.inter r.id key none } :=
        (Outline.tick_keeps (t := .evict r.id key) trivial htyped rfl).2
      rcases h.drop key with ⟨y, hy, hdrop⟩
      rcases ih hapart htyped' hdrop hrun with ⟨x', hserved, hw'⟩
      rcases hy with rfl | rfl
      · exact ⟨x', hserved, hw'⟩
      · exact ⟨x', .drop hserved, hw'⟩
    | turn turn =>
      simp only [serveRounds] at hrun
      split at hrun
      · cases hrun
      · next out₁ w₁ hturn =>
          rcases Option.map_eq_some_iff.1 hrun with ⟨rest, hrest, heq⟩
          cases heq
          rcases serveTurns_one hturn with ⟨id, rfl, rfl, rfl⟩ |
            ⟨call, choices, res, rfl, rfl, rfl, hexec⟩
          · have htyped' : Typed { w with broker := w.broker.forget id } :=
              (Outline.tick_keeps (O := loose.outline) (t := .forget id) trivial htyped rfl).2
            exact ih hapart htyped' (h.forget id) hrest
          · have htyped₁ := htyped.execCalmly hexec
            have hrest' : Apart t i (callsOfRounds rounds) :=
              fun c hc => hapart c (List.mem_cons_of_mem _ hc)
            cases hon : call.on t i with
            | true =>
              rcases h.own hon hexec with ⟨rfl, hw₁⟩
              rcases ih hrest' htyped₁ hw₁ hrest with ⟨x', hserved, hw'⟩
              simp only [List.singleton_append, List.filter_cons, hon]
              exact ⟨x', .call hw₁.fits hserved, hw'⟩
            | false =>
              have hw₁ := h.other ht hi hon (hapart call List.mem_cons_self) htyped hexec
              simp only [List.singleton_append, List.filter_cons, hon]
              exact ih hrest' htyped₁ hw₁ hrest

theorem serveRounds_calls {rounds : List Round} :
    ∀ {w w' : World} {out : List (Call × CommandResult)}, serveRounds r rounds w = some (out, w') →
      out.map Prod.fst = callsOfRounds rounds ∧
        ∀ reply ∈ out, reply.1.interaction = none → handleCommand reply.1 = pure reply.2 := by
  induction rounds with
  | nil =>
    intro w w' out hrun
    cases hrun
    exact ⟨rfl, nofun⟩
  | cons round rounds ih =>
    intro w w' out hrun
    cases round with
    | drop key => exact ih hrun
    | turn turn =>
      simp only [serveRounds] at hrun
      split at hrun
      · cases hrun
      · next out₁ w₁ hturn =>
          rcases Option.map_eq_some_iff.1 hrun with ⟨rest, hrest, heq⟩
          cases heq
          rcases ih hrest with ⟨hcalls, hunnamed⟩
          rcases serveTurns_one hturn with ⟨id, rfl, rfl, rfl⟩ |
            ⟨call, choices, res, rfl, rfl, rfl, hexec⟩
          · exact ⟨hcalls, hunnamed⟩
          · refine ⟨congrArg (call :: ·) hcalls, ?_⟩
            intro reply hreply hnone
            rcases List.mem_cons.1 hreply with rfl | hreply
            · rcases handleCommand_unnamed (Option.map_eq_none_iff.1 hnone) with ⟨res', hpure⟩
              unfold execCalmly at hexec
              rw [hpure] at hexec ⊢
              cases choices with
              | nil =>
                cases hexec
                rfl
              | cons ch choices => cases hexec
            · exact hunnamed reply hreply hnone

end Runs

theorem replies_eq : ∀ {out out' : List (Call × CommandResult)},
    out.map Prod.fst = out'.map Prod.fst →
    (∀ reply ∈ out, reply.1.interaction = none → handleCommand reply.1 = pure reply.2) →
    (∀ reply ∈ out', reply.1.interaction = none → handleCommand reply.1 = pure reply.2) →
    (∀ reply ∈ out, ∀ p ∈ reply.1.interaction,
      out.filter (fun reply => reply.1.on p.1 p.2) = out'.filter fun reply => reply.1.on p.1 p.2) →
    out = out' := by
  intro out
  induction out with
  | nil => exact fun hcalls _ _ _ => (List.map_eq_nil_iff.1 hcalls.symm).symm
  | cons a rest ih =>
    intro out' hcalls hnone hnone' hfilter
    cases out' with
    | nil => cases hcalls
    | cons a' rest' =>
      rcases List.cons.inj hcalls with ⟨hcall, hrest⟩
      have hhead : a = a' := by
        refine Prod.ext hcall ?_
        cases hp : a.1.interaction with
        | none =>
          have hpure := hnone a List.mem_cons_self hp
          rw [hcall, hnone' a' List.mem_cons_self (hcall ▸ hp)] at hpure
          injection hpure with hres
          exact hres.symm
        | some p =>
          have hsame := hfilter a List.mem_cons_self p hp
          have hon : a.1.on p.1 p.2 = true := decide_eq_true hp
          simp only [List.filter_cons, hon, ← hcall] at hsame
          exact congrArg Prod.snd (List.cons.inj hsame).1
      subst hhead
      refine congrArg (a :: ·) (ih hrest (fun b hb => hnone b (List.mem_cons_of_mem _ hb))
        (fun b hb => hnone' b (List.mem_cons_of_mem _ hb)) ?_)
      intro b hb p hp
      have hsame := hfilter b (List.mem_cons_of_mem _ hb) p hp
      simp only [List.filter_cons] at hsame
      split at hsame
      · exact (List.cons.inj hsame).2
      · exact hsame

def AllApart (calls : List Call) : Prop :=
  ∀ call ∈ calls, ∀ p ∈ call.interaction, Apart p.1 p.2 calls

/-- Two serial runs of a router with the same calls: whichever cached states are dropped between the
calls of either, the replies are the same, and so are the facts of every interaction, when the keys of
the interactions differ and every id of an interaction stands for one payload. -/
theorem eviction_transparent {r : Router} {rounds rounds' : List Round}
    {out out' : List (Call × CommandResult)} {w w' : World}
    (hcalls : callsOfRounds rounds = callsOfRounds rounds') (hapart : AllApart (callsOfRounds rounds))
    (hone : ∀ t i, OnePayload ((callsOfRounds rounds).filter (Call.on t i)))
    (hrun : serveRounds r rounds World.start = some (out, w))
    (hrun' : serveRounds r rounds' World.start = some (out', w')) :
    out = out' ∧ ∀ call ∈ callsOfRounds rounds, ∀ p ∈ call.interaction,
      (factsOf w.broker (logSubjectFor p.1 p.2)).map (fun f => f.event.anonymous) =
        (factsOf w'.broker (logSubjectFor p.1 p.2)).map (fun f => f.event.anonymous) := by
  rcases serveRounds_calls hrun with ⟨hout, hunnamed⟩
  rcases serveRounds_calls hrun' with ⟨hout', hunnamed'⟩
  have hsame : out.map Prod.fst = out'.map Prod.fst := hout.trans (hcalls.trans hout'.symm)
  have hview : ∀ call ∈ callsOfRounds rounds, ∀ p ∈ call.interaction,
      out.filter (fun reply => reply.1.on p.1 p.2) = out'.filter (fun reply => reply.1.on p.1 p.2) ∧
        (factsOf w.broker (logSubjectFor p.1 p.2)).map (fun f => f.event.anonymous) =
          (factsOf w'.broker (logSubjectFor p.1 p.2)).map (fun f => f.event.anonymous) := by
    rintro call hcall ⟨_, _⟩ hp
    rcases Option.map_eq_some_iff.1 hp with ⟨⟨t, i, suffix⟩, hnamed, heq⟩
    rcases Prod.mk.inj heq with ⟨rfl, rfl⟩
    have hdots := parseCmdSubject_dotFree hnamed
    have hsep := hapart call hcall _ hp
    rcases serveRounds_refines hdots.1 hdots.2 hsep Outline.WorldInv.start refines_start hrun with
      ⟨x, hserved, hw⟩
    rcases serveRounds_refines hdots.1 hdots.2 (hcalls ▸ hsep) Outline.WorldInv.start refines_start hrun'
      with ⟨x', hserved', hw'⟩
    have hfst : ∀ out : List (Call × CommandResult),
        (out.filter fun reply => reply.1.on t i).map Prod.fst =
          (out.map Prod.fst).filter (Call.on t i) := by
      intro out
      rw [List.filter_map]
      rfl
    rcases Interaction.Twins.served (hone t i) hserved Interaction.twins_start hserved'
      (by rw [hfst, hfst, hsame]) (by
        intro reply hreply
        have hmem := List.mem_map_of_mem (f := Prod.fst) hreply
        rwa [hfst, hout] at hmem) with ⟨hreplies, hlog⟩
    exact ⟨hreplies, hw.facts.trans (hlog.trans hw'.facts.symm)⟩
  refine ⟨replies_eq hsame hunnamed hunnamed' ?_, fun call hcall p hp => (hview call hcall p hp).2⟩
  intro reply hreply p hp
  exact (hview reply.1 (hout ▸ List.mem_map_of_mem hreply) p hp).1

/-! ## A remembered rejection -/

namespace Scenario

def order (commandId type refId : String) : Call where
  router := ⟨1, false, 8, 2⟩
  id := ⟨"t", "desk", roleTrustedBackend, ""⟩
  subject := "tenant.t.interaction.i.cmd.desk"
  data := some ⟨commandId, "t", "desk", type, "", refId, []⟩
  json := none

def rebuilt : List Choice :=
  List.replicate 7 .go

def found : List Choice :=
  [.go, .go]

def appended : List Choice :=
  [.name "e", .time 0, .go, .go]

def tooEarly : List Round :=
  [.turn (.command (order "m" "message" "x") (rebuilt ++ [.go])),
    .turn (.command (order "s" "interaction.started" "") (found ++ appended))]

def kept (refId : String) (choices : List Choice) : List Round :=
  tooEarly ++ [.turn (.command (order "m" "message" refId) (found ++ choices))]

def evicted (refId : String) : List Round :=
  tooEarly ++ [.drop (stateKey "t" "i"),
    .turn (.command (order "m" "message" refId) (rebuilt ++ appended))]

theorem apart_orders {calls : List Call} (h : ∀ call ∈ calls, call.interaction = some ("t", "i")) :
    AllApart calls := by
  intro call hcall p hp call' hcall' p' hp' hne
  rw [h call hcall] at hp
  rw [h call' hcall'] at hp'
  cases hp
  cases hp'
  exact absurd rfl hne

end Scenario

open Scenario in
/-- The message is retried as it was: it is accepted with its rejection in the cache and without. -/
theorem eviction_transparent_retry :
    ∃ out out' w w', serveRounds (order "m" "message" "x").router (kept "x" appended) World.start =
        some (out, w) ∧
      serveRounds (order "m" "message" "x").router (evicted "x") World.start = some (out', w') ∧
      out.map (fun reply => reply.2.status) = [.rejected, .accepted, .accepted] ∧ out = out' := by
  have hkept : (serveRounds (order "m" "message" "x").router (kept "x" appended) World.start).map
      (fun run => run.1.map fun reply => reply.2.status) =
        some [.rejected, .accepted, .accepted] := by
    decide +kernel
  have hevicted : (serveRounds (order "m" "message" "x").router (evicted "x")
      World.start).isSome = true := by
    decide +kernel
  rcases Option.map_eq_some_iff.1 hkept with ⟨⟨out, w⟩, hrun, hout⟩
  rcases Option.isSome_iff_exists.1 hevicted with ⟨⟨out', w'⟩, hrun'⟩
  have hone : OnePayload (callsOfRounds (kept "x" appended)) :=
    ⟨by decide +kernel, by decide +kernel⟩
  exact ⟨out, out', w, w', hrun, hrun', hout, (eviction_transparent (by decide +kernel)
    (apart_orders (by decide +kernel)) (fun t i => hone.filter (Call.on t i)) hrun hrun').1⟩

open Scenario in
/-- Under the id of a rejected message another one is sent.  With the rejection in the cache it is a
conflict; once the state has been dropped it is accepted. -/
theorem eviction_shows :
    ∃ (r : Router) (rounds rounds' : List Round) (out out' : List (Call × CommandResult))
      (w w' : World), callsOfRounds rounds = callsOfRounds rounds' ∧
      AllApart (callsOfRounds rounds) ∧
      serveRounds r rounds World.start = some (out, w) ∧
      serveRounds r rounds' World.start = some (out', w') ∧
      out.map (fun reply => reply.2.status) = [.rejected, .accepted, .rejected] ∧
      out'.map (fun reply => reply.2.status) = [.rejected, .accepted, .accepted] := by
  have hkept : (serveRounds (order "m" "message" "x").router (kept "y" [.go]) World.start).map
      (fun run => run.1.map fun reply => reply.2.status) =
        some [.rejected, .accepted, .rejected] := by
    decide +kernel
  have hevicted : (serveRounds (order "m" "message" "x").router (evicted "y") World.start).map
      (fun run => run.1.map fun reply => reply.2.status) =
        some [.rejected, .accepted, .accepted] := by
    decide +kernel
  rcases Option.map_eq_some_iff.1 hkept with ⟨⟨out, w⟩, hrun, hout⟩
  rcases Option.map_eq_some_iff.1 hevicted with ⟨⟨out', w'⟩, hrun', hout'⟩
  exact ⟨_, _, _, out, out', w, w', by decide +kernel, apart_orders (by decide +kernel), hrun, hrun',
    hout, hout'⟩

end RelayPoint.Signaling
