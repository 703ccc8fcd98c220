import RelayPoint.Signaling.Accept

/-!
# Verdict — the reply to a command that is already in the log

A retry of a committed command should be accepted, or asked to try again.  The broker keeps its
side: it never commits the command id twice.  The router judges a retry on a cached state, and that
state may be behind the log, may hold a rejection from before the commit, or may have lost the entry
of the committed fact.  `Settles` says when a cached state answers a retry correctly.
-/

namespace RelayPoint.Signaling

open Concurrency Journal

def Ordinary.InLog (c : Ordinary) (b : LogStore) : Prop :=
  Committed b c.subject c.cmd.commandId c.payloadHash
  deriving Decidable

def Ordinary.Open (c : Ordinary) (st : InteractionState) : Prop :=
  (c.gateParticipation = true → st.part.isParticipantNow c.suffix = true) ∧
    legalTransition st.status c.cmd.type = true
  deriving Decidable

/-- The cached state has the committed outcome of the command, or has no entry for it and would let
it through to the broker. -/
def Ordinary.Settles (c : Ordinary) (st : InteractionState) : Prop :=
  match st.results.lookup c.cmd.commandId with
  | some prev => prev.payloadHash = c.payloadHash ∧ prev.result.status = .accepted
  | none => c.Open st

/-- The condition on calls whose command was in the log when they started: the state they lock
settles it, and a re-fold whose merge does not keep the id leaves the gates open. -/
def VerdictOk (b₀ : LogStore) (w : World) (op : Op) (ch : Choice) : Prop :=
  match op with
  | .lock (.command c) o =>
    c.InLog b₀ → ∀ cell ∈ w.heap[o]?, cell.st.poisoned = false → c.Settles cell.st
  | .replay (.refold max st c) _ =>
    ch = .go → c.InLog b₀ →
      (st.refold (built w.broker c.subject max) max).results.lookup c.cmd.commandId = none →
        c.Open (st.refold (built w.broker c.subject max) max)
  | _ => True

abbrev verdictPolicy : Policy Op Call World Choice Tick where
  spawn _ := True
  op w₀ w op ch := VerdictOk w₀.broker w op ch
  tick _ t := ∀ id, t ≠ .forget id

def Favourable (res : CommandResult) : Prop :=
  res.status = .accepted ∨ res.status = .rejected ∧ ∃ s, res.reason = s ++ "retry"

theorem retryReasons_end {reason : String} (h : reason ∈ retryReasons) :
    ∃ s, reason = s ++ "retry" := by
  have hcases : reason = unavailableReason ∨ reason = poisonedReason ∨
      reason = "lost concurrent append — retry" ∨ reason = "log append failed — retry" := by
    simpa [retryReasons] using h
  rcases hcases with rfl | rfl | rfl | rfl
  · exact ⟨"state unavailable (log replay failed) — ", by decide⟩
  · exact ⟨"state unavailable — ", by decide⟩
  · exact ⟨"lost concurrent append — ", by decide⟩
  · exact ⟨"log append failed — ", by decide⟩

section Verdict

variable {b b₀ : LogStore} {c : Ordinary} {st : InteractionState} {max : Nat}

theorem fact_unique (hs : Sound b) (hu : b.UniqueIds) {f g : Fact} (hf : f ∈ factsOf b c.subject)
    (hg : g ∈ factsOf b c.subject) (hid : f.event.commandId = g.event.commandId) : f = g := by
  rcases List.mem_map.1 hf with ⟨m, hm, rfl⟩
  rcases List.mem_map.1 hg with ⟨m', hm', rfl⟩
  rcases mem_log.1 hm with ⟨hmem, hsub⟩
  rcases mem_log.1 hm' with ⟨hmem', hsub'⟩
  have hidm := hs.id_of_mem c.tenant_dotFree c.iid_dotFree hmem hsub
  have hidm' := hs.id_of_mem c.tenant_dotFree c.iid_dotFree hmem' hsub'
  have : m = m' := hu.eq_of_id hmem hmem' (by rw [hidm, hidm', hid])
  rw [this]

theorem Ordinary.Settles.precheck (h : c.Settles st) {out : CommandResult × InteractionState}
    (hpre : c.precheck max st = some out) : out.1.status = .accepted := by
  unfold Ordinary.Settles at h
  cases hl : st.results.lookup c.cmd.commandId with
  | some prev =>
    rw [hl] at h
    have hne : ¬ c.payloadHash = "" := hashPayload_ne_empty c.cmd
    have hout : (prev.result, st) = out := by
      simpa [Ordinary.precheck, hl, h.1, h.2] using hpre
    rw [← hout]
    exact h.2
  | none =>
    rw [hl] at h
    have hopen : c.gates max st = none := by
      unfold Ordinary.gates
      rw [if_neg (by simpa using h.1), if_neg (by simpa using h.2)]
    simp [Ordinary.precheck, hl, hopen] at hpre

theorem Ordinary.Settles.lookup_none (h : c.Settles st) (hpre : c.precheck max st = none) :
    st.results.lookup c.cmd.commandId = none := by
  unfold Ordinary.Settles at h
  cases hl : st.results.lookup c.cmd.commandId with
  | some prev =>
    rw [hl] at h
    have hne : ¬ c.payloadHash = "" := hashPayload_ne_empty c.cmd
    simp [Ordinary.precheck, hl, h.1, h.2] at hpre
  | none => rfl

theorem merged_lookup (hs : Sound b) (hu : b.UniqueIds) (hin : c.InLog b)
    (hnone : st.results.lookup c.cmd.commandId = none) {e : StoredResult}
    (he : (st.refold (built b c.subject max) max).results.lookup c.cmd.commandId = some e) :
    e.payloadHash = c.payloadHash ∧ e.result.status = .accepted := by
  rcases FifoCache.lookup_copyMissing he with hold | hnew
  · rw [hnone] at hold
    cases hold
  · rcases built_lookup hnew with ⟨f, hf, hid, rfl⟩
    rcases hin with ⟨g, hg, hgid, hghash⟩
    have hfg : f = g := fact_unique hs hu hf hg (hid.trans hgid.symm)
    exact ⟨by rw [hfg]; exact hghash, rfl⟩

theorem settles_refold (hs : Sound b) (hu : b.UniqueIds) (hin : c.InLog b) (h : c.Settles st)
    (hpre : c.precheck max st = none)
    (hok : (st.refold (built b c.subject max) max).results.lookup c.cmd.commandId = none →
      c.Open (st.refold (built b c.subject max) max)) :
    c.Settles (st.refold (built b c.subject max) max) := by
  unfold Ordinary.Settles
  cases hl : (st.refold (built b c.subject max) max).results.lookup c.cmd.commandId with
  | some e => exact merged_lookup hs hu hin (h.lookup_none hpre) hl
  | none => exact hok hl

theorem onDuplicate_accepted (hs : Sound b) (hu : b.UniqueIds) (hin : c.InLog b)
    (h : c.Settles st) (hpre : c.precheck max st = none) :
    (c.onDuplicate max st (built b c.subject max)).1.status = .accepted := by
  have hnone := h.lookup_none hpre
  rcases c.onDuplicate_cases max st (built b c.subject max) with
    ⟨e, hl, _, hne, _⟩ | ⟨e, hl, _, hout⟩ | ⟨_, hout⟩
  · exact absurd (merged_lookup hs hu hin hnone hl).1 hne
  · rw [hout]
    exact (merged_lookup hs hu hin hnone hl).2
  · rw [hout]
    rfl

end Verdict

/-- The proof outline: the store keeps message ids unique, and a call whose command was in the log
when it started stays on states that settle it. -/
def verdictOutline : Outline where
  okOrdinary _ := True
  okPrivileged _ := True
  ok := VerdictOk
  mayForget := False
  Inv b := b.Remembers ∧ b.UniqueIds
  Obj _ _ _ := True
  Ready b₀ b c st := Extends b₀ b ∧ (c.InLog b₀ → c.Settles st)
  Replied b₀ _ c res := c.InLog b₀ → Favourable res
  Cleared _ _ _ _ := True
  FactReady _ _ _ _ _ _ := True
  Settled _ _ _ _ := True
  mono := {
    obj := fun _ _ => trivial
    ready := fun hb h => ⟨h.1.trans hb, h.2⟩
    replied := fun _ h => h
    cleared := fun _ _ => trivial
    factReady := fun _ _ => trivial
    settled := fun _ _ => trivial }
  inv_empty := ⟨Broker.remembers_empty, Broker.uniqueIds_empty⟩
  inv_forget := fun _ hno => hno.elim
  obj_built := fun _ _ _ _ => trivial
  obj_poison := fun _ => trivial
  ready := by
    intro w b₀ c o st _ hb _ _ hholds hpois _ hok
    refine ⟨hb, fun hin => ?_⟩
    rcases hholds with ⟨cell, hcell, _, rfl⟩
    exact hok hin cell hcell hpois
  obj_of_ready := fun _ => trivial
  precheck := fun _ _ h hpre => ⟨fun hin => .inl ((h.2 hin).precheck hpre), trivial⟩
  commit := by
    intro b₀ b c st max eventId at_ _ hinv _ _ hnone _
    refine ⟨⟨hinv.1.commit _, hinv.2.commit hinv.1 hnone⟩, trivial, fun _ => .inl rfl⟩
  refold := by
    intro w b₀ c st max hs hinv h hpre hok
    refine ⟨h.1, fun hin => ?_⟩
    exact settles_refold hs hinv.2 (hin.mono h.1) (h.2 hin) hpre (hok rfl hin)
  retried := fun hmem _ => .inr ⟨rfl, retryReasons_end hmem⟩
  lostAck := by
    intro w b₀ c st max prev _ _ _ _ hprev
    rcases built_lookup hprev with ⟨f, _, _, rfl⟩
    exact ⟨fun _ => .inl rfl, trivial⟩
  duplicate := by
    intro w b₀ c st max hs hinv h hpre _ _
    refine ⟨fun hin => .inl ?_, trivial⟩
    exact onDuplicate_accepted hs hinv.2 (hin.mono h.1) (h.2 hin) hpre
  unreadable := fun _ _ _ _ _ _ => .inl rfl
  refused := fun _ => trivial
  cleared := fun _ _ _ _ _ _ _ _ => trivial
  factReady := fun _ _ _ _ _ _ _ => trivial
  obj_of_factReady := fun _ => trivial
  replayed := fun _ _ _ _ _ => trivial
  commitFact := by
    intro w b₀ p landed f st max eventId at_ ch _ _ hinv _ _ hnone _ _
    exact ⟨⟨hinv.1.commit _, hinv.2.commit hinv.1 hnone⟩, trivial, trivial⟩
  duplicateFact := fun _ _ _ _ _ _ _ _ _ => ⟨trivial, trivial⟩
  refoldFact := fun _ _ _ _ => trivial
  bound := fun _ _ _ _ => trivial
  settled := fun _ _ _ => trivial

/-- In every run in which no message id is forgotten and in which a call whose command is in the log
only meets states that settle it, the reply to such a call is favourable. -/
theorem verdict_stable {cfg : Config Ans Call World CommandResult}
    (h : Reachable machine handleCommand verdictPolicy World.start cfg)
    {th : Thread Ans Call World CommandResult} (hth : th ∈ cfg.pool) {res : CommandResult}
    (hres : th.prog = .ret res) {c : Ordinary} (hreq : th.call.request = .ordinary c)
    (hin : ∃ f ∈ factsOf th.born.broker (logSubjectFor c.tenant c.iid),
      f.event.commandId = c.cmd.commandId ∧ f.event.payloadHash = hashPayload c.cmd) :
    res.status = .accepted ∨ res.status = .rejected ∧ ∃ s, res.reason = s ++ "retry" := by
  have hreach : Reachable machine handleCommand verdictOutline.policy World.start cfg := by
    refine Reachable.mono ?_ ?_ ?_ h
    · intro call _
      exact call.meets_trivial
    · intro w₀ w op ch hop
      exact hop
    · intro w t ht
      cases t with
      | forget id => exact absurd rfl (ht id)
      | _ => trivial
  have hans := ((verdictOutline.sound hreach).2 th hth).2 res hres
  unfold Outline.Answered at hans
  rw [hreq] at hans
  exact hans hin

/-- The verdict on the `i`-th call: its status and reason, and whether the command was in the log
when the call started. -/
def verdictOnRetry (i : Nat) (cfg : Config Ans Call World CommandResult) :
    Option (Status × String × Bool) :=
  cfg.pool[i]?.bind fun th => (outcome th).map fun out =>
    (out.1.status, out.1.reason, decide (Committed th.born.broker
      (logSubjectFor out.2.tenant out.2.iid) out.2.cmd.commandId (hashPayload out.2.cmd)))

theorem verdictOnRetry_some {i : Nat} {cfg : Config Ans Call World CommandResult} {s : Status}
    {reason : String} (h : verdictOnRetry i cfg = some (s, reason, true)) :
    ∃ th ∈ cfg.pool, ∃ res c, th.prog = .ret res ∧ th.call.request = .ordinary c ∧
      (∃ f ∈ factsOf th.born.broker (logSubjectFor c.tenant c.iid),
        f.event.commandId = c.cmd.commandId ∧ f.event.payloadHash = hashPayload c.cmd) ∧
      res.status = s ∧ res.reason = reason := by
  rcases Option.bind_eq_some_iff.1 h with ⟨th, hget, hth⟩
  rcases Option.map_eq_some_iff.1 hth with ⟨⟨res, c⟩, hout, hval⟩
  rcases outcome_some hout with ⟨hprog, hreq⟩
  rcases Prod.mk.inj hval with ⟨hs, hrest⟩
  rcases Prod.mk.inj hrest with ⟨hreason, hcom⟩
  exact ⟨th, List.mem_of_getElem? hget, res, c, hprog, hreq, of_decide_eq_true hcom, hs, hreason⟩

namespace Scenario

/-- Router 2 has the interaction cached from before `A` joined.  The message of `A` is committed by
router 1; its retry reaches router 2. -/
def retriedOnStaleRouter : Schedule :=
  [.spawn (ordinary 2 backend "s" "interaction.started" [])] ++ acts 0 (write cold .go) ++
  [.spawn (privileged 1 "p" "participant.assign" "A" "")] ++ acts 1 (land cold .go) ++
  [.spawn (ordinary 1 (agent "A") "c" "message" [])] ++ acts 2 (write warm .go) ++
  [.spawn (ordinary 2 (agent "A") "c" "message" [])] ++ acts 3 (warm ++ [.go, .go])

end Scenario

open Scenario in
/-- Without the condition a committed command is refused for good. -/
theorem verdict_refused : ∃ cfg : Config Ans Call World CommandResult,
    Reachable machine handleCommand remembering World.start cfg ∧
      ∃ th ∈ cfg.pool, ∃ res c, th.prog = .ret res ∧ th.call.request = .ordinary c ∧
        (∃ f ∈ factsOf th.born.broker (logSubjectFor c.tenant c.iid),
          f.event.commandId = c.cmd.commandId ∧ f.event.payloadHash = hashPayload c.cmd) ∧
        ¬ (res.status = .accepted ∨ res.status = .rejected ∧ ∃ s, res.reason = s ++ "retry") := by
  have hrun : (run machine handleCommand remembering retriedOnStaleRouter ⟨World.start, []⟩).map
      (verdictOnRetry 3) = some (some (.rejected, "not_a_participant", true)) := by
    decide +kernel
  rcases exists_of_run hrun with ⟨cfg, hcfg, hverdict⟩
  rcases verdictOnRetry_some hverdict with ⟨th, hth, res, c, hprog, hreq, hin, hs, hreason⟩
  refine ⟨cfg, hcfg, th, hth, res, c, hprog, hreq, hin, ?_⟩
  rintro (hacc | ⟨_, s, hretry⟩)
  · rw [hs] at hacc
    cases hacc
  · have hlast := congrArg (fun r => r.toList.getLast?) (hreason.symm.trans hretry)
    simp at hlast

section Decidable

instance (c : Ordinary) (st : InteractionState) : Decidable (c.Settles st) :=
  match h : st.results.lookup c.cmd.commandId with
  | some prev =>
    decidable_of_iff (prev.payloadHash = c.payloadHash ∧ prev.result.status = .accepted)
      (by simp [Ordinary.Settles, h])
  | none => decidable_of_iff (c.Open st) (by simp [Ordinary.Settles, h])

instance (b₀ : LogStore) (w : World) (op : Op) (ch : Choice) : Decidable (VerdictOk b₀ w op ch) :=
  match op with
  | .lock (.command c) o =>
    inferInstanceAs (Decidable (c.InLog b₀ → ∀ cell ∈ w.heap[o]?,
      cell.st.poisoned = false → c.Settles cell.st))
  | .replay (.refold max st c) _ =>
    inferInstanceAs (Decidable (ch = .go → c.InLog b₀ →
      (st.refold (built w.broker c.subject max) max).results.lookup c.cmd.commandId = none →
        c.Open (st.refold (built w.broker c.subject max) max)))
  | .lock (.parents _) _ | .lock (.fact ..) _ | .lock (.bind _) _ | .replay .load _
  | .replay (.lostAck ..) _ | .replay (.refoldFact ..) _ | .replay (.duplicate ..) _ | .append ..
  | .now | .newID | .interGet .. | .interPut .. | .interDelete .. | .loadJoin .. | .loadWait _
  | .loadDone .. | .unlock .. => .isTrue trivial

end Decidable

open Scenario in
theorem verdict_stable_retriedAfterLostAck : ∃ cfg : Config Ans Call World CommandResult,
    Reachable machine handleCommand verdictPolicy World.start cfg ∧
      ∃ th ∈ cfg.pool, ∃ res c, th.prog = .ret res ∧ th.call.request = .ordinary c ∧
        (∃ f ∈ factsOf th.born.broker (logSubjectFor c.tenant c.iid),
          f.event.commandId = c.cmd.commandId ∧ f.event.payloadHash = hashPayload c.cmd) ∧
        (res.status = .accepted ∨ res.status = .rejected ∧ ∃ s, res.reason = s ++ "retry") := by
  have hrun : (run machine handleCommand verdictPolicy retriedAfterLostAck ⟨World.start, []⟩).map
      (verdictOnRetry 2) = some (some (.accepted, "", true)) := by
    decide +kernel
  rcases exists_of_run hrun with ⟨cfg, hcfg, hverdict⟩
  rcases verdictOnRetry_some hverdict with ⟨th, hth, res, c, hprog, hreq, hin, _, _⟩
  exact ⟨cfg, hcfg, th, hth, res, c, hprog, hreq, hin, verdict_stable hcfg hth hprog hreq hin⟩

end RelayPoint.Signaling
