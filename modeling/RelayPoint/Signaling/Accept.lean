import RelayPoint.Signaling.Dedup
import RelayPoint.Signaling.LogLaws

/-!
# Accept — an accepted ordinary command is in the log

`HandleCommand` accepts in six places.  Three of them compare the payload hash of the command with
the one in a dedup entry or have just committed the fact themselves.  The other three answer from the
mere presence of the command id in the log: the reconciliation after a lost ack, a duplicate ack with
an unreadable log, and a duplicate ack whose id does not survive the merge into the bounded dedup
cache.  These are the places where a reuse of the command id with another payload is accepted.
-/

namespace RelayPoint.Signaling

open Concurrency Journal

def Call.Hashes (H : Set Command) : Call → Prop :=
  Call.Meets (fun c => c.cmd ∈ H) fun p => ∀ f ∈ p.facts, p.factCommand f ∈ H

def NotReused (b : LogStore) (c : Ordinary) : Prop :=
  ∀ f ∈ factsOf b c.subject, f.event.commandId = c.cmd.commandId →
    f.event.payloadHash = c.payloadHash
  deriving Decidable

def AcceptOk (w : World) (op : Op) (ch : Choice) : Prop :=
  match op with
  | .replay (.lostAck _ _ c) _ => ch = .go → NotReused w.broker c
  | .replay (.duplicate max st c) _ =>
    (ch = .fail ∨ (st.refold (built w.broker c.subject max) max).results.lookup
      c.cmd.commandId = none) → NotReused w.broker c
  | _ => True

abbrev acceptPolicy (H : Set Command) : Policy Op Call World Choice Tick where
  spawn := Call.Hashes H
  op _ w op ch := AcceptOk w op ch
  tick _ _ := True

/-- Entries made by participation appends are exempt: their hash is never that of an ordinary
command. -/
def factHashes (H : Set Command) (hash : String) : Prop :=
  ∃ x ∈ H, isParticipationFact x.type = true ∧ hashPayload x = hash

section Accept

variable {H : Set Command} {b b₀ : LogStore} {c : Ordinary} {st fresh : InteractionState}
variable {max : Nat}

theorem not_factHashes (hH : CollisionFree H) (hc : c.cmd ∈ H) :
    ¬ factHashes H (hashPayload c.cmd) := by
  rintro ⟨x, hx, hfact, hhash⟩
  have hpay := hH x hx c.cmd hc hhash
  have htype : (payloadOf x).type = (payloadOf c.cmd).type := by rw [hpay]
  have htype : x.type = c.cmd.type := htype
  rw [htype, c.not_fact] at hfact
  cases hfact

theorem committed_of_entry (hH : CollisionFree H) (hall : AllHashed H b) (hc : c.cmd ∈ H)
    (hst : Entries (factHashes H) b c.key st) {prev : StoredResult}
    (hprev : st.results.lookup c.cmd.commandId = some prev)
    (hhash : prev.payloadHash = c.payloadHash) (hacc : prev.result.status = .accepted) :
    Committed b c.subject c.cmd.commandId c.payloadHash := by
  have hback := (hst _ _ hprev).2 hacc
  rw [hhash] at hback
  exact hback.committed hH hall hc c.tenant_eq (not_factHashes hH hc)

theorem NotReused.committed (h : NotReused b c) {f : Fact} (hf : f ∈ factsOf b c.subject)
    (hid : f.event.commandId = c.cmd.commandId) :
    Committed b c.subject c.cmd.commandId c.payloadHash :=
  ⟨f, hf, hid, h f hf hid⟩

theorem mem_factsOf_of_id (hs : Sound b) {m : Msg String String Fact} (hm : m ∈ b.stream)
    (hid : m.id = c.dedupID) :
    m.payload ∈ factsOf b c.subject ∧ m.payload.event.commandId = c.cmd.commandId := by
  rcases hs.of_id c.tenant_dotFree c.iid_dotFree hm hid with ⟨hsub, hcid⟩
  exact ⟨List.mem_map.2 ⟨m, mem_log.2 ⟨hm, hsub⟩, rfl⟩, hcid⟩

theorem accept_precheck (hH : CollisionFree H) (hall : AllHashed H b) (hc : c.cmd ∈ H)
    (hst : Entries (factHashes H) b c.key st) {out : CommandResult × InteractionState}
    (hpre : c.precheck max st = some out) (hacc : out.1.status = .accepted) :
    Committed b c.subject c.cmd.commandId c.payloadHash := by
  rcases Ordinary.precheck_some hpre with ⟨prev, hprev, _, hcase⟩ | hgates
  · rcases hcase with ⟨hlegacy, _⟩ | ⟨_, hres⟩ | ⟨hhash, hres⟩
    · exact absurd hlegacy (hst _ _ hprev).1
    · simp [hres] at hacc
    · rw [hres] at hacc
      exact committed_of_entry hH hall hc hst hprev hhash hacc
  · rcases Ordinary.gates_some hgates with ⟨hres, _⟩ | ⟨hres, _⟩
    all_goals simp [hres] at hacc

theorem accept_duplicate (hH : CollisionFree H) (hs : Sound b) (hall : AllHashed H b)
    (hc : c.cmd ∈ H) (hst : Entries (factHashes H) b c.key st)
    (hnew : (st.refold (built b c.subject max) max).results.lookup c.cmd.commandId = none →
      Committed b c.subject c.cmd.commandId c.payloadHash)
    (hacc : (c.onDuplicate max st (built b c.subject max)).1.status = .accepted) :
    Committed b c.subject c.cmd.commandId c.payloadHash := by
  have hmerged : Entries (factHashes H) b c.key (st.refold (built b c.subject max) max) :=
    hst.refold (entries_built c.tenant_dotFree c.iid_dotFree hs)
  rcases c.onDuplicate_cases max st (built b c.subject max) with
    ⟨e, hl, _, _, hout⟩ | ⟨e, hl, hhash, hout⟩ | ⟨hl, hout⟩
  · simp [hout] at hacc
  · rw [hout] at hacc
    have hhash : e.payloadHash = c.payloadHash := hhash.resolve_left (hmerged _ _ hl).1
    exact committed_of_entry hH hall hc hmerged hl hhash hacc
  · exact hnew hl

end Accept

/-- The proof outline: dedup entries are backed, and an accepted command is committed. -/
def acceptOutline (H : Set Command) (hH : CollisionFree H) : Outline where
  okOrdinary c := c.cmd ∈ H
  okPrivileged p := ∀ f ∈ p.facts, p.factCommand f ∈ H
  ok _ w op ch := AcceptOk w op ch
  mayForget := True
  Inv := AllHashed H
  Obj := Entries (factHashes H)
  Ready _ b c st := c.cmd ∈ H ∧ Entries (factHashes H) b c.key st
  Replied _ b c res :=
    res.status = .accepted → Committed b c.subject c.cmd.commandId c.payloadHash
  Cleared _ _ p _ := ∀ f ∈ p.facts, p.factCommand f ∈ H
  FactReady _ b p _ f st :=
    f ∈ p.facts ∧ (∀ g ∈ p.facts, p.factCommand g ∈ H) ∧ Entries (factHashes H) b p.key st
  Settled _ _ _ _ := True
  mono := {
    obj := fun hb h => h.mono hb
    ready := fun hb h => ⟨h.1, h.2.mono hb⟩
    replied := fun hb h hacc => (h hacc).mono hb
    cleared := fun _ h => h
    factReady := fun hb h => ⟨h.1, h.2.1, h.2.2.mono hb⟩
    settled := fun _ _ => trivial }
  inv_empty := allHashed_empty
  inv_forget := fun _ _ h => h
  obj_built := fun ht hi hs _ => entries_built ht hi hs
  obj_poison := fun h => h.congr rfl
  ready := fun hc _ _ _ _ _ h _ => ⟨hc, h⟩
  obj_of_ready := fun h => h.2
  precheck := fun _ hall h hpre => ⟨accept_precheck hH hall h.1 h.2 hpre, h.2.precheck hpre⟩
  commit := by
    intro b₀ b c st max eventId at_ hs hall hready _ _ _
    exact ⟨hall.commit (c.hashedBy_message hready.1 st eventId at_),
      hready.2.onCommit eventId at_, fun _ => committed_commit (c.message st eventId at_)⟩
  refold := by
    intro w b₀ c st max hs _ hready _ _
    exact ⟨hready.1, hready.2.refold (entries_built c.tenant_dotFree c.iid_dotFree hs)⟩
  retried := fun _ hacc => by simp at hacc
  lostAck := by
    intro w b₀ c st max prev _ _ hready hok hprev
    refine ⟨?_, hready.2.congr rfl⟩
    intro _
    rcases built_lookup hprev with ⟨f, hf, hid, _⟩
    exact (hok rfl).committed hf hid
  duplicate := by
    intro w b₀ c st max hs hall hready _ horig hok
    have hnew : (st.refold (built w.broker c.subject max) max).results.lookup c.cmd.commandId =
        none → Committed w.broker c.subject c.cmd.commandId c.payloadHash := by
      intro hnone
      rcases horig with ⟨m, hm, hid⟩
      rcases mem_factsOf_of_id hs hm hid with ⟨hf, hcid⟩
      exact (hok (.inr hnone)).committed hf hcid
    exact ⟨accept_duplicate hH hs hall hready.1 hready.2 hnew,
      hready.2.onDuplicate hs fun hnone => Ordinary.backed (hnew hnone)⟩
  unreadable := by
    intro w b₀ c st max hs _ _ horig hok _
    rcases horig with ⟨m, hm, hid⟩
    rcases mem_factsOf_of_id hs hm hid with ⟨hf, hcid⟩
    exact (hok (.inl rfl)).committed hf hcid
  refused := fun _ => trivial
  cleared := fun hp _ _ _ _ _ _ _ => hp
  factReady := fun hcl hfacts _ _ _ h _ => ⟨by rw [hfacts]; simp, hcl, h⟩
  obj_of_factReady := fun h => h.2.2
  replayed := fun _ _ h _ _ => h.2.1
  commitFact := by
    intro w b₀ p landed f st max eventId at_ ch _ hs hall hready _ _ _ _
    have hmem := hready.2.1 f hready.1
    have hold := hready.2.2.mono (extends_commit w.broker (p.message f st eventId at_))
    exact ⟨hall.commit (p.hashedBy_message hmem st eventId at_),
      hold.onAck (.inr ⟨p.factCommand f, hmem, Privileged.isParticipationFact hready.1, rfl⟩),
      hready.2.1⟩
  duplicateFact := by
    intro w b₀ p landed f st max n eventId at_ ch hs hall hready _ _ _
    have hmem := hready.2.1 f hready.1
    exact ⟨hready.2.2.onAck
        (.inr ⟨p.factCommand f, hmem, Privileged.isParticipationFact hready.1, rfl⟩),
      hready.2.1⟩
  refoldFact := by
    intro w b₀ p landed f st max hs _ hready _
    exact ⟨hready.1, hready.2.1,
      hready.2.2.refold (entries_built p.tenant_dotFree p.iid_dotFree hs)⟩
  bound := fun _ _ _ h => h.congr rfl
  settled := fun _ _ _ => trivial

/-- In every run in which the payload hash tells the payloads of the run's commands apart, and in
which the three places that do not compare hashes meet no reuse of the command id, an ordinary
command that was accepted is in the log of its interaction. -/
theorem accepted_committed {H : Set Command} (hH : CollisionFree H)
    {cfg : Config Ans Call World CommandResult}
    (h : Reachable machine handleCommand (acceptPolicy H) World.start cfg)
    {th : Thread Ans Call World CommandResult} (hth : th ∈ cfg.pool) {res : CommandResult}
    (hres : th.prog = .ret res) {c : Ordinary} (hreq : th.call.request = .ordinary c)
    (hacc : res.status = .accepted) :
    ∃ f ∈ factsOf cfg.world.broker (logSubjectFor c.tenant c.iid),
      f.event.commandId = c.cmd.commandId ∧ f.event.payloadHash = hashPayload c.cmd := by
  have hreach : Reachable machine handleCommand (acceptOutline H hH).policy World.start cfg := by
    refine Reachable.mono ?_ ?_ ?_ h
    · intro call hcall
      exact hcall
    · intro _ w op ch hop
      exact hop
    · intro w t _
      cases t with
      | _ => trivial
  have hans := (((acceptOutline H hH).sound hreach).2 th hth).2 res hres
  unfold Outline.Answered at hans
  rw [hreq] at hans
  exact hans hacc

/-! ## Runs that accept what was never committed, and runs that do not -/

abbrev remembering : Policy Op Call World Choice Tick where
  spawn _ := True
  op _ _ _ _ := True
  tick _ t := ∀ id, t ≠ .forget id

def Tick.isForget : Tick → Bool
  | .forget _ => true
  | .evict .. | .restart _ => false

theorem Tick.isForget_eq_false {t : Tick} : t.isForget = false ↔ ∀ id, t ≠ .forget id := by
  cases t <;> simp [Tick.isForget]

instance (t : Tick) : Decidable (∀ id, t ≠ .forget id) :=
  decidable_of_iff _ Tick.isForget_eq_false

def outcome (th : Thread Ans Call World CommandResult) : Option (CommandResult × Ordinary) :=
  match th.prog, th.call.request with
  | .ret res, .ordinary c => some (res, c)
  | _, _ => none

theorem outcome_some {th : Thread Ans Call World CommandResult} {res : CommandResult} {c : Ordinary}
    (h : outcome th = some (res, c)) : th.prog = .ret res ∧ th.call.request = .ordinary c := by
  unfold outcome at h
  split at h
  · rename_i hprog hreq
    cases h
    exact ⟨hprog, hreq⟩
  · cases h

instance (b : LogStore) (subject commandId payloadHash : String) :
    Decidable (Committed b subject commandId payloadHash) :=
  inferInstanceAs (Decidable (∃ f ∈ factsOf b subject, _))

/-- The verdict on the `i`-th call: its status, and whether the command is in the log. -/
def verdict (i : Nat) (cfg : Config Ans Call World CommandResult) : Option (Status × Bool) :=
  (cfg.pool[i]?.bind outcome).map fun out =>
    (out.1.status, decide (Committed cfg.world.broker (logSubjectFor out.2.tenant out.2.iid)
      out.2.cmd.commandId (hashPayload out.2.cmd)))

theorem verdict_some {i : Nat} {cfg : Config Ans Call World CommandResult} {s : Status} {x : Bool}
    (h : verdict i cfg = some (s, x)) :
    ∃ th ∈ cfg.pool, ∃ res c, th.prog = .ret res ∧ th.call.request = .ordinary c ∧ res.status = s ∧
      decide (Committed cfg.world.broker (logSubjectFor c.tenant c.iid) c.cmd.commandId
        (hashPayload c.cmd)) = x := by
  rcases Option.map_eq_some_iff.1 h with ⟨⟨res, c⟩, hout, hpair⟩
  rcases Option.bind_eq_some_iff.1 hout with ⟨th, hget, hth⟩
  rcases outcome_some hth with ⟨hprog, hreq⟩
  rcases Prod.mk.inj hpair with ⟨hs, hx⟩
  exact ⟨th, List.mem_of_getElem? hget, res, c, hprog, hreq, hs, hx⟩

namespace Scenario

/-- Router 2 commits the command id `x`.  Router 1 gets `x` with another payload; its append fails
without reaching the broker, and the reconciliation finds `x` in the log. -/
def reusedAfterError : Schedule :=
  [.spawn (ordinary 1 backend "s" "interaction.started" [])] ++ acts 0 (write cold .go) ++
  [.spawn (ordinary 2 backend "x" "message" [2])] ++ acts 1 (write cold .go) ++
  [.spawn (ordinary 1 backend "x" "message" [1])] ++
    acts 2 (warm ++ [.go] ++ offer .fail ++ [.go, .go])

/-- The ack of `x` is lost; the reconciliation finds it.  A retry on another router replays it. -/
def retriedAfterLostAck : Schedule :=
  [.spawn (ordinary 1 backend "s" "interaction.started" [])] ++ acts 0 (write cold .go) ++
  [.spawn (ordinary 1 backend "x" "message" [1])] ++
    acts 1 (warm ++ [.go] ++ offer .lost ++ [.go, .go]) ++
  [.spawn (ordinary 2 backend "x" "message" [1])] ++ acts 2 (cold ++ [.go, .go])

def retriedCommands : List Command :=
  [⟨"s", "t", "desk", "interaction.started", "", "", []⟩, ⟨"x", "t", "desk", "message", "", "", [1]⟩]

end Scenario

open Scenario in
/-- Without the condition a command is accepted whose payload is not in the log. -/
theorem accepted_not_committed : ∃ cfg : Config Ans Call World CommandResult,
    Reachable machine handleCommand remembering World.start cfg ∧
      ∃ th ∈ cfg.pool, ∃ res c, th.prog = .ret res ∧ th.call.request = .ordinary c ∧
        res.status = .accepted ∧
        ¬ ∃ f ∈ factsOf cfg.world.broker (logSubjectFor c.tenant c.iid),
          f.event.commandId = c.cmd.commandId ∧ f.event.payloadHash = hashPayload c.cmd := by
  have hrun : (run machine handleCommand remembering reusedAfterError ⟨World.start, []⟩).map
      (verdict 2) = some (some (.accepted, false)) := by
    decide +kernel
  rcases exists_of_run hrun with ⟨cfg, hcfg, hverdict⟩
  rcases verdict_some hverdict with ⟨th, hth, res, c, hprog, hreq, hs, hcom⟩
  exact ⟨cfg, hcfg, th, hth, res, c, hprog, hreq, hs, of_decide_eq_false hcom⟩

instance (okOrdinary : Ordinary → Prop) (okPrivileged : Privileged → Prop)
    [∀ c, Decidable (okOrdinary c)] [∀ p, Decidable (okPrivileged p)] (call : Call) :
    Decidable (call.Meets okOrdinary okPrivileged) :=
  match h : call.request with
  | .refuse _ => .isTrue (by simp [Call.Meets, h])
  | .ordinary c => decidable_of_iff (okOrdinary c) (by simp [Call.Meets, h])
  | .privileged p => decidable_of_iff (okPrivileged p) (by simp [Call.Meets, h])

instance (cmds : List Command) (call : Call) : Decidable (call.Hashes {x | x ∈ cmds}) :=
  inferInstanceAs (Decidable (call.Meets (fun c => c.cmd ∈ cmds)
    fun p => ∀ f ∈ p.facts, p.factCommand f ∈ cmds))

instance (w : World) (op : Op) (ch : Choice) : Decidable (AcceptOk w op ch) :=
  match op with
  | .replay (.lostAck _ _ c) _ => inferInstanceAs (Decidable (ch = .go → NotReused w.broker c))
  | .replay (.duplicate max st c) _ =>
    inferInstanceAs (Decidable ((ch = .fail ∨
      (st.refold (built w.broker c.subject max) max).results.lookup c.cmd.commandId = none) →
        NotReused w.broker c))
  | .replay .load _ | .replay (.refold ..) _ | .replay (.refoldFact ..) _ | .append ..
  | .now | .newID | .interGet .. | .interPut .. | .interDelete .. | .loadJoin .. | .loadWait _
  | .loadDone .. | .lock .. | .unlock .. => .isTrue trivial

instance (cmds : List Command) : Decidable (CollisionFree {x | x ∈ cmds}) :=
  inferInstanceAs (Decidable (∀ x ∈ cmds, ∀ y ∈ cmds,
    hashPayload x = hashPayload y → payloadOf x = payloadOf y))

open Scenario in
theorem accepted_committed_retriedAfterLostAck : ∃ cfg : Config Ans Call World CommandResult,
    Reachable machine handleCommand (acceptPolicy {x | x ∈ retriedCommands}) World.start cfg ∧
      ∃ th ∈ cfg.pool, ∃ res c, th.prog = .ret res ∧ th.call.request = .ordinary c ∧
        res.status = .accepted ∧
        ∃ f ∈ factsOf cfg.world.broker (logSubjectFor c.tenant c.iid),
          f.event.commandId = c.cmd.commandId ∧ f.event.payloadHash = hashPayload c.cmd := by
  have hrun : (run machine handleCommand (acceptPolicy {x | x ∈ retriedCommands})
      retriedAfterLostAck ⟨World.start, []⟩).map (verdict 2) = some (some (.accepted, true)) := by
    decide +kernel
  have hH : CollisionFree {x | x ∈ retriedCommands} := by
    decide +kernel
  rcases exists_of_run hrun with ⟨cfg, hcfg, hverdict⟩
  rcases verdict_some hverdict with ⟨th, hth, res, c, hprog, hreq, hs, _⟩
  exact ⟨cfg, hcfg, th, hth, res, c, hprog, hreq, hs, accepted_committed hH hcfg hth hprog hreq hs⟩

end RelayPoint.Signaling
