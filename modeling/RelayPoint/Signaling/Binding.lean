import RelayPoint.Signaling.Accept

/-!
# Binding — a privileged command id stands for one payload

The facts of a privileged command are appended one by one, each under the command id it was planned
for.  `handleParticipation` ties the id to one payload through the map `parents` of the cached state:
the sub-facts that are recorded for the id must be among the sub-facts of the payload.  The map is
read once, before the first append, and the test is one of inclusion.  So another payload gets
through when its facts include the recorded ones, or when they are recorded by another router after
the test.
-/

namespace RelayPoint.Signaling

open Concurrency Journal

/-! ## The facts of a payload -/

def Payload.facts (q : Payload) : List PlannedFact :=
  match planFacts q.cmdType ⟨q.agent, q.from, "", ""⟩ with
  | .ok facts => facts
  | .error _ => []

theorem Privileged.payload_facts (p : Privileged) : p.payload.facts = p.facts := by
  have hplan := p.planned
  unfold planFacts at hplan
  -- one case for each command type; `From` is part of the payload of a transfer only
  split at hplan
  · rename_i htype
    split at hplan
    · cases hplan
    · rename_i hagent
      simpa [Payload.facts, payload, planFacts, htype, hagent] using Except.ok.inj hplan
  · split at hplan
    · rename_i htype
      split at hplan
      · cases hplan
      · rename_i hagent
        simpa [Payload.facts, payload, planFacts, htype, hagent] using Except.ok.inj hplan
    · split at hplan
      · rename_i htype
        split at hplan
        · cases hplan
        · rename_i hagents
          simpa [Payload.facts, payload, planFacts, htype, hagents] using Except.ok.inj hplan
      · rename_i hassign hunassign htransfer
        simpa [Payload.facts, payload, planFacts, hassign, hunassign, htransfer] using
          Except.ok.inj hplan

theorem planFacts_nodup {cmdType : String} {pd : ParticipationData} {facts : List PlannedFact}
    (h : planFacts cmdType pd = .ok facts) : facts.Nodup := by
  unfold planFacts at h
  repeat' split at h
  all_goals cases h
  all_goals simp

theorem Payload.facts_nodup (q : Payload) : q.facts.Nodup := by
  unfold facts
  split
  · rename_i hplan
    exact planFacts_nodup hplan
  · exact List.nodup_nil

/-! ## The facts caused by a command id -/

def Fact.CausedBy (id : String) (f : Fact) : Prop :=
  isParticipationFact f.event.eventType = true ∧ f.event.causedBy = id
  deriving Decidable

def causedBy (id : String) (fs : List Fact) : List Fact :=
  fs.filter fun f => f.CausedBy id

def Fact.planned (f : Fact) : PlannedFact where
  eventType := f.event.eventType
  agent := f.event.actorId

variable {id : String} {fs : List Fact} {f : Fact}

theorem mem_causedBy : f ∈ causedBy id fs ↔ f ∈ fs ∧ f.CausedBy id := by
  simp [causedBy]

theorem causedBy_concat_self (h : f.CausedBy id) :
    causedBy id (fs ++ [f]) = causedBy id fs ++ [f] := by
  simp [causedBy, h]

theorem causedBy_concat_other (h : ¬ f.CausedBy id) : causedBy id (fs ++ [f]) = causedBy id fs := by
  simp [causedBy, h]

/-- The facts caused by each id are an initial part of the facts of the one payload they were all
appended for. -/
def Bound (fs : List Fact) : Prop :=
  ∀ id, ∃ q : Payload, (∀ f ∈ causedBy id fs, f.author.payload = some q) ∧
    (causedBy id fs).map Fact.planned <+: q.facts

theorem bound_nil : Bound [] := by
  intro id
  refine ⟨⟨"", "", ""⟩, ?_, ?_⟩
  · intro f hf
    simp [causedBy] at hf
  · exact List.nil_prefix

theorem Bound.concat (h : Bound fs) (hf : isParticipationFact f.event.eventType = false) :
    Bound (fs ++ [f]) := by
  intro id
  have hnot : ¬ f.CausedBy id := fun hcaused => by simp [hcaused.1] at hf
  simpa only [causedBy_concat_other hnot] using h id

theorem Bound.concat_next (h : Bound fs) {q : Payload} {rest : List PlannedFact}
    (hcaused : f.CausedBy id) (hq : f.author.payload = some q)
    (hsame : ∀ g ∈ causedBy id fs, g.author.payload = some q)
    (hfacts : q.facts = (causedBy id fs).map Fact.planned ++ f.planned :: rest) :
    Bound (fs ++ [f]) := by
  intro id'
  by_cases hid : id' = id
  · refine ⟨q, ?_, ?_⟩
    · intro g hg
      rw [hid, causedBy_concat_self hcaused] at hg
      rcases List.mem_append.1 hg with hg | hg
      · exact hsame g hg
      · have : g = f := by simpa using hg
        rw [this, hq]
    · rw [hid, causedBy_concat_self hcaused]
      exact ⟨rest, by simp [hfacts]⟩
  · have hnot : ¬ f.CausedBy id' := fun hcaused' => hid (hcaused'.2.symm.trans hcaused.2)
    simpa only [causedBy_concat_other hnot] using h id'

theorem eq_of_isPrefixOf_of_subset {α : Type} {l before rest : List α} {x : α}
    (hl : l <+: before ++ x :: rest) (hx : x ∉ l) (hsub : before ⊆ l) (hnodup : before.Nodup) :
    l = before := by
  have hnext : before ++ [x] <+: before ++ x :: rest := ⟨rest, by simp⟩
  have hbefore : l <+: before := by
    rcases List.prefix_or_prefix_of_prefix hl hnext with h | h
    · rcases List.prefix_concat_iff.1 h with heq | h
      · exact absurd (by simp [heq]) hx
      · exact h
    · exact absurd (h.subset (by simp)) hx
  refine hbefore.eq_of_length (Nat.le_antisymm hbefore.length_le ?_)
  exact (hnodup.subperm hsub).length_le

/-! ## The condition -/

/-- When the call started, the log had a fact of the same id that was appended for another
payload. -/
def Privileged.Reuses (b₀ : LogStore) (p : Privileged) : Prop :=
  ∃ f ∈ causedBy p.cmd.commandId (factsOf b₀ p.subject), f.author.payload ≠ some p.payload
  deriving Decidable

def factsSince (b₀ b : LogStore) (subject : String) : List Fact :=
  (factsOf b subject).drop (factsOf b₀ subject).length

def Privileged.Appended (b : LogStore) (p : Privileged) : Prop :=
  ∃ f ∈ causedBy p.cmd.commandId (factsOf b p.subject), f.author.payload = some p.payload
  deriving Decidable

/-- The conditions on the steps of a privileged command: the binding test sees a reuse of the id that
was in the log when the call started; when a participation append commits, no other payload has
appended under the id since then, and no message has its id; and one that is acked as a duplicate has
the payload hash of its original. -/
def BindOk (b₀ : LogStore) (w : World) (op : Op) (ch : Choice) : Prop :=
  match op with
  | .lock (.parents p) o => p.Reuses b₀ → ∀ cell ∈ w.heap[o]?, p.diverges cell.st = true
  | .append author subject ev id expected =>
    isParticipationFact ev.eventType = true →
      (ch ≠ .fail → w.broker.window.lookup id = none →
        lastSeq subject w.broker.stream = expected →
        (∀ g ∈ causedBy ev.causedBy (factsSince b₀ w.broker subject),
          g.author.payload = author.payload) ∧ ∀ m ∈ w.broker.stream, m.id ≠ id) ∧
      ∀ n ∈ duplicateOf w subject id expected ch, ∀ m ∈ w.broker.stream[n - 1]?,
        m.payload.event.payloadHash = ev.payloadHash
  | _ => True

abbrev bindPolicy (H : Set Command) : Policy Op Call World Choice Tick where
  spawn := Call.Hashes H
  op w₀ w op ch := BindOk w₀.broker w op ch
  tick _ _ := True

/-! ## The invariant -/

def SubIdentified (m : Msg String String Fact) : Prop :=
  isParticipationFact m.payload.event.eventType = true →
    m.payload.event.commandId =
      m.payload.event.causedBy ++ ":" ++ m.payload.event.eventType ++ ":" ++ m.payload.event.actorId

structure BindInv (H : Set Command) (b : LogStore) : Prop where
  hashed : AllHashed H b
  subIdentified : ∀ m ∈ b.stream, SubIdentified m
  bound : ∀ subject, Bound (factsOf b subject)

/-- Entries made for ordinary commands are exempt: their hash is never that of a participation
fact. -/
def ordinaryHashes (H : Set Command) (hash : String) : Prop :=
  ∃ x ∈ H, isParticipationFact x.type = false ∧ hashPayload x = hash

def Privileged.Landed (b : LogStore) (p : Privileged) (f : PlannedFact) : Prop :=
  ∃ g ∈ causedBy p.cmd.commandId (factsOf b p.subject), g.planned = f

section Binding

variable {H : Set Command} {b b' b₀ : LogStore} {c : Ordinary} {p : Privileged}
variable {f : PlannedFact} {st : InteractionState} {landed rest : List PlannedFact}

theorem Extends.factsOf_eq (hb : Extends b₀ b) (subject : String) :
    factsOf b subject = factsOf b₀ subject ++ factsSince b₀ b subject := by
  rcases (List.IsPrefix.filter (fun m => decide (m.subject = subject)) hb).map Msg.payload with
    ⟨since, hsince⟩
  have hsince : factsOf b₀ subject ++ since = factsOf b subject := hsince
  simp [factsSince, ← hsince]

theorem Privileged.Landed.mono (hb : Extends b b') (h : p.Landed b f) : p.Landed b' f := by
  rcases h with ⟨g, hg, hplanned⟩
  rcases mem_causedBy.1 hg with ⟨hmem, hcaused⟩
  exact ⟨g, mem_causedBy.2 ⟨hb.mem_factsOf hmem, hcaused⟩, hplanned⟩

theorem Privileged.same_payload (hb : Extends b₀ b) (hfresh : ¬ p.Reuses b₀)
    (hsince : ∀ g ∈ causedBy p.cmd.commandId (factsSince b₀ b p.subject),
      g.author.payload = some p.payload) :
    ∀ g ∈ causedBy p.cmd.commandId (factsOf b p.subject), g.author.payload = some p.payload := by
  intro g hg
  rcases mem_causedBy.1 hg with ⟨hmem, hcaused⟩
  rw [hb.factsOf_eq p.subject] at hmem
  rcases List.mem_append.1 hmem with hold | hnew
  · exact not_not.1 fun hother => hfresh ⟨g, mem_causedBy.2 ⟨hold, hcaused⟩, hother⟩
  · exact hsince g (mem_causedBy.2 ⟨hnew, hcaused⟩)

theorem Ordinary.ordinaryHash (hc : c.cmd ∈ H) : ordinaryHashes H c.payloadHash :=
  ⟨c.cmd, hc, c.not_fact, rfl⟩

theorem not_ordinaryHashes (hH : CollisionFree H) (hf : f ∈ p.facts) (hp : p.factCommand f ∈ H) :
    ¬ ordinaryHashes H (p.factHash f) := by
  rintro ⟨x, hx, hordinary, hhash⟩
  have htype : x.type = f.eventType := congrArg Command.type (hH x hx _ hp hhash)
  simp [htype, Privileged.isParticipationFact hf] at hordinary

theorem bindInv_empty : BindInv H Broker.empty where
  hashed := allHashed_empty
  subIdentified := by
    intro m hm
    simp [Broker.empty] at hm
  bound := by
    intro subject
    exact bound_nil

theorem BindInv.commit (h : BindInv H b) {m : Msg String String Fact} (hhash : HashedBy H m)
    (hsub : SubIdentified m) (hbound : Bound (factsOf b m.subject ++ [m.payload])) :
    BindInv H (b.commit m) where
  hashed := h.hashed.commit hhash
  subIdentified := by
    intro m' hm'
    rcases List.mem_append.1 hm' with hm' | hm'
    · exact h.subIdentified m' hm'
    · have : m' = m := by simpa using hm'
      rw [this]
      exact hsub
  bound := by
    intro subject
    by_cases hs : m.subject = subject
    · rw [← hs, factsOf_commit_self]
      exact hbound
    · rw [factsOf_commit_other hs]
      exact h.bound subject

theorem landed_of_committed (hH : CollisionFree H) (h : BindInv H b) (hf : f ∈ p.facts)
    (hp : p.factCommand f ∈ H) (hcom : Committed b p.subject (p.subID f) (p.factHash f)) :
    p.Landed b f := by
  rcases hcom with ⟨g, hg, hid, hhash⟩
  rcases List.mem_map.1 hg with ⟨m, hm, rfl⟩
  have hmem := (mem_log.1 hm).1
  rcases h.hashed m hmem with ⟨x, hx, _, _, _, _, hxhash, hxtype, hxactor⟩
  -- equal hashes, so the fact has the type and the agent of the sub-fact
  have hpay := hH x hx _ hp (hxhash.symm.trans hhash)
  have htype : m.payload.event.eventType = f.eventType := hxtype.trans (congrArg Command.type hpay)
  have hactor : m.payload.event.actorId = f.agent := hxactor.trans (congrArg Command.actorId hpay)
  have hfact : isParticipationFact m.payload.event.eventType = true := by
    simpa only [htype] using Privileged.isParticipationFact hf
  -- equal ids, so what is left of them is the id of the command
  have hcause : m.payload.event.causedBy = p.cmd.commandId := by
    have hsub := (h.subIdentified m hmem hfact).symm.trans hid
    simp only [htype, hactor, Privileged.subID, String.append_assoc] at hsub
    exact String.append_left_inj _ |>.1 hsub
  refine ⟨m.payload, mem_causedBy.2 ⟨hg, hfact, hcause⟩, ?_⟩
  simp [Fact.planned, htype, hactor]

theorem landed_of_replayed (hH : CollisionFree H) (h : BindInv H b) (hf : f ∈ p.facts)
    (hp : p.factCommand f ∈ H) (hst : Entries (ordinaryHashes H) b p.key st) {res : CommandResult}
    (hcheck : p.checkFact f st = some res) (hacc : res.status = .accepted) : p.Landed b f := by
  rcases Privileged.checkFact_accepted hcheck hacc with ⟨prev, hprev, hstatus, hhash⟩
  rcases hst _ _ hprev with ⟨hne, hback⟩
  have hback := hback hstatus
  rw [hhash.resolve_left hne] at hback
  exact landed_of_committed hH h hf hp
    (hback.committed hH h.hashed hp rfl (not_ordinaryHashes hH hf hp))

theorem exists_id_of_landed (hs : Sound b) (h : BindInv H b) (hl : p.Landed b f) :
    ∃ m ∈ b.stream, m.id = p.dedupID f := by
  rcases hl with ⟨g, hg, rfl⟩
  rcases mem_causedBy.1 hg with ⟨hmem, hfact, hcause⟩
  rcases List.mem_map.1 hmem with ⟨m, hm, rfl⟩
  rcases mem_log.1 hm with ⟨hm, hsub⟩
  refine ⟨m, hm, ?_⟩
  calc m.id = dedupID p.tenant p.iid m.payload.event.commandId :=
        hs.id_of_mem p.tenant_dotFree p.iid_dotFree hm hsub
    _ = p.dedupID m.payload.planned := by
        rw [h.subIdentified m hm hfact, hcause]
        rfl

theorem landed_eq (hs : Sound b) (h : BindInv H b) (hfacts : p.facts = landed ++ f :: rest)
    (hlanded : ∀ g ∈ landed, p.Landed b g)
    (hsame : ∀ g ∈ causedBy p.cmd.commandId (factsOf b p.subject),
      g.author.payload = some p.payload) (hfresh : ∀ m ∈ b.stream, m.id ≠ p.dedupID f) :
    (causedBy p.cmd.commandId (factsOf b p.subject)).map Fact.planned = landed := by
  rcases h.bound p.subject p.cmd.commandId with ⟨q, hq, hpre⟩
  have hpre : (causedBy p.cmd.commandId (factsOf b p.subject)).map Fact.planned <+:
      landed ++ f :: rest := by
    rw [← hfacts, ← p.payload_facts]
    -- an empty list is an initial part of any payload's facts, so `q` need not be this payload
    rcases List.eq_nil_or_concat (causedBy p.cmd.commandId (factsOf b p.subject)) with
      hnil | ⟨gs, g, hconcat⟩
    · rw [hnil]
      exact List.nil_prefix
    · have hg : g ∈ causedBy p.cmd.commandId (factsOf b p.subject) := by simp [hconcat]
      have : q = p.payload := Option.some.inj ((hq g hg).symm.trans (hsame g hg))
      rw [← this]
      exact hpre
  refine eq_of_isPrefixOf_of_subset hpre ?_ ?_ ?_
  · intro hmem
    rcases List.mem_map.1 hmem with ⟨g, hg, hplanned⟩
    rcases exists_id_of_landed hs h ⟨g, hg, hplanned⟩ with ⟨m, hm, hid⟩
    exact hfresh m hm hid
  · intro g hg
    rcases hlanded g hg with ⟨x, hx, hplanned⟩
    exact List.mem_map.2 ⟨x, hx, hplanned⟩
  · have hnodup := p.payload.facts_nodup
    rw [p.payload_facts, hfacts] at hnodup
    exact (List.nodup_append.1 hnodup).1

end Binding

/-! ## The outline -/

/-- After the binding test: the id is not reused, and the listed facts are in the log. -/
structure Clear (H : Set Command) (b₀ b : LogStore) (p : Privileged) (landed : List PlannedFact) :
    Prop where
  hashes : ∀ f ∈ p.facts, p.factCommand f ∈ H
  grows : Extends b₀ b
  fresh : ¬ p.Reuses b₀
  all_landed : ∀ f ∈ landed, p.Landed b f

structure ClearFor (H : Set Command) (b₀ b : LogStore) (p : Privileged) (landed : List PlannedFact)
    (f : PlannedFact) (st : InteractionState) : Prop extends Clear H b₀ b p landed where
  next : ∃ rest, p.facts = landed ++ f :: rest
  entries : Entries (ordinaryHashes H) b p.key st

section Outline

variable {H : Set Command} {b b' b₀ : LogStore} {p : Privileged}
variable {f : PlannedFact} {st : InteractionState} {landed : List PlannedFact}

theorem Clear.mono (hb : Extends b b') (h : Clear H b₀ b p landed) : Clear H b₀ b' p landed :=
  ⟨h.hashes, h.grows.trans hb, h.fresh, fun f hf => (h.all_landed f hf).mono hb⟩

theorem Clear.concat (h : Clear H b₀ b p landed) (hf : p.Landed b f) :
    Clear H b₀ b p (landed ++ [f]) where
  hashes := h.hashes
  grows := h.grows
  fresh := h.fresh
  all_landed := by
    intro g hg
    rcases List.mem_append.1 hg with hg | hg
    · exact h.all_landed g hg
    · have : g = f := by simpa using hg
      rw [this]
      exact hf

theorem ClearFor.mem (h : ClearFor H b₀ b p landed f st) : f ∈ p.facts := by
  rcases h.next with ⟨rest, hfacts⟩
  simp [hfacts]

theorem ClearFor.hash (h : ClearFor H b₀ b p landed f st) : p.factCommand f ∈ H :=
  h.hashes f h.mem

end Outline

def bindOutline (H : Set Command) (hH : CollisionFree H) : Outline where
  okOrdinary c := c.cmd ∈ H
  okPrivileged p := ∀ f ∈ p.facts, p.factCommand f ∈ H
  ok := BindOk
  mayForget := True
  Inv := BindInv H
  Obj := Entries (ordinaryHashes H)
  Ready _ b c st := c.cmd ∈ H ∧ Entries (ordinaryHashes H) b c.key st
  Replied _ _ _ _ := True
  Cleared := Clear H
  FactReady := ClearFor H
  Settled b₀ _ p res := p.Reuses b₀ → res.status = .rejected
  mono := {
    obj := fun hb h => h.mono hb
    ready := fun hb h => ⟨h.1, h.2.mono hb⟩
    replied := fun _ _ => trivial
    cleared := fun hb h => h.mono hb
    factReady := fun hb h => ⟨h.toClear.mono hb, h.next, h.entries.mono hb⟩
    settled := fun _ h => h }
  inv_empty := bindInv_empty
  inv_forget := fun _ _ h => ⟨h.hashed, h.subIdentified, h.bound⟩
  obj_built := fun ht hi hs _ => entries_built ht hi hs
  obj_poison := fun h => h.congr rfl
  ready := fun hc _ _ _ _ _ h _ => ⟨hc, h⟩
  obj_of_ready := fun h => h.2
  precheck := fun _ _ h hpre => ⟨trivial, h.2.precheck hpre⟩
  commit := by
    intro b₀ b c st max eventId at_ hs hinv hready _ _ _
    have hfact : isParticipationFact (c.event st eventId at_).eventType = false := c.not_fact
    have hsub : SubIdentified (c.message st eventId at_) := by
      intro hfact'
      exact absurd (hfact'.symm.trans hfact) (by simp)
    refine ⟨?_, hready.2.onCommit eventId at_, trivial⟩
    exact hinv.commit (c.hashedBy_message hready.1 st eventId at_) hsub
      ((hinv.bound _).concat hfact)
  refold := by
    intro w b₀ c st max hs _ hready _ _
    exact ⟨hready.1, hready.2.refold (entries_built c.tenant_dotFree c.iid_dotFree hs)⟩
  retried := fun _ => trivial
  lostAck := fun _ _ h _ _ => ⟨trivial, h.2.congr rfl⟩
  duplicate := by
    intro w b₀ c st max hs _ hready _ _ _
    exact ⟨trivial, hready.2.onDuplicate hs fun _ => .inr (Ordinary.ordinaryHash hready.1)⟩
  unreadable := fun _ _ _ _ _ => trivial
  refused := fun h _ => h
  cleared := by
    intro w b₀ p o st hp hb _ _ hholds _ hok hdiv
    rcases hholds with ⟨cell, hcell, _, rfl⟩
    refine ⟨hp, hb, ?_, by simp⟩
    intro hreuse
    exact absurd (hok hreuse cell hcell) (by simp [hdiv])
  factReady := fun hcl hfacts _ _ _ h _ => ⟨hcl, ⟨_, hfacts⟩, h⟩
  obj_of_factReady := fun h => h.entries
  replayed := by
    intro b₀ b p landed f st res hs hinv hready hcheck hacc
    exact hready.toClear.concat
      (landed_of_replayed hH hinv hready.mem hready.hash hready.entries hcheck hacc)
  commitFact := by
    intro w b₀ p landed f st max eventId at_ ch hch hs hinv hready _ hnone hlast hok
    have hfact := Privileged.isParticipationFact hready.mem
    rcases (hok hfact).1 hch hnone hlast with ⟨hsince, hfresh⟩
    have hsame := Privileged.same_payload hready.grows hready.fresh hsince
    rcases hready.next with ⟨rest, hfacts⟩
    have hnext : p.payload.facts =
        (causedBy p.cmd.commandId (factsOf w.broker p.subject)).map Fact.planned ++ f :: rest := by
      rw [landed_eq hs hinv hfacts hready.all_landed hsame hfresh, p.payload_facts, hfacts]
    have hbound : Bound (factsOf w.broker p.subject ++ [(p.message f st eventId at_).payload]) :=
      (hinv.bound _).concat_next ⟨hfact, rfl⟩ rfl hsame hnext
    have hinv' : BindInv H (w.broker.commit (p.message f st eventId at_)) :=
      hinv.commit (p.hashedBy_message hready.hash st eventId at_) (fun _ => rfl) hbound
    have hgrow := extends_commit w.broker (p.message f st eventId at_)
    have hcom : Committed (w.broker.commit (p.message f st eventId at_)) p.subject (p.subID f)
        (p.factHash f) := committed_commit (p.message f st eventId at_)
    exact ⟨hinv', (hready.entries.mono hgrow).onAck (Privileged.backed hcom),
      (hready.toClear.mono hgrow).concat
        (landed_of_committed hH hinv' hready.mem hready.hash hcom)⟩
  duplicateFact := by
    intro w b₀ p landed f st max n eventId at_ ch hs hinv hready _ hdup hok
    rcases hs.original p.tenant_dotFree p.iid_dotFree (Outline.lookup_of_duplicateOf hdup) with
      ⟨m, _, hget, hsub, hid⟩
    have hhash := (hok (Privileged.isParticipationFact hready.mem)).2 n hdup m hget
    have hcom : Committed w.broker p.subject (p.subID f) (p.factHash f) :=
      ⟨m.payload, List.mem_map.2 ⟨m, mem_log.2 ⟨List.mem_of_getElem? hget, hsub⟩, rfl⟩, hid, hhash⟩
    exact ⟨hready.entries.onAck (Privileged.backed hcom),
      hready.toClear.concat (landed_of_committed hH hinv hready.mem hready.hash hcom)⟩
  refoldFact := by
    intro w b₀ p landed f st max hs _ hready _
    exact ⟨hready.toClear, hready.next,
      hready.entries.refold (entries_built p.tenant_dotFree p.iid_dotFree hs)⟩
  bound := fun _ _ _ h => h.congr rfl
  settled := fun _ _ h hreuse => absurd hreuse h.fresh

/-- In every run in which the payload hash tells the payloads of the run's commands apart, and whose
steps meet `BindOk`, the facts of each privileged command id are an initial part of the facts of one
payload, without repetition, and a call that reuses the id for another payload is rejected and
appends nothing. -/
theorem privileged_bound {H : Set Command} (hH : CollisionFree H)
    {cfg : Config Ans Call World CommandResult}
    (h : Reachable machine handleCommand (bindPolicy H) World.start cfg) :
    (∀ tenant iid id, ∃ q : Payload,
      (causedBy id (factsOf cfg.world.broker (logSubjectFor tenant iid))).map Fact.planned <+:
        q.facts ∧
      ((causedBy id (factsOf cfg.world.broker (logSubjectFor tenant iid))).map Fact.planned).Nodup) ∧
    ∀ th ∈ cfg.pool, ∀ res p, th.prog = .ret res → th.call.request = .privileged p →
      p.Reuses th.born.broker → res.status = .rejected ∧ ¬ p.Appended cfg.world.broker := by
  have hreach : Reachable machine handleCommand (bindOutline H hH).policy World.start cfg := by
    refine Reachable.mono ?_ ?_ ?_ h
    · intro call hcall
      exact hcall
    · intro _ w op ch hop
      exact hop
    · intro w t _
      cases t with
      | _ => trivial
  rcases (bindOutline H hH).sound hreach with ⟨⟨_, hinv⟩, hpool⟩
  refine ⟨?_, ?_⟩
  · intro tenant iid id
    rcases hinv.bound (logSubjectFor tenant iid) id with ⟨q, _, hpre⟩
    exact ⟨q, hpre, hpre.sublist.nodup q.facts_nodup⟩
  · intro th hth res p hprog hreq hreuse
    rcases hpool th hth with ⟨hgrow, hans⟩
    have hans := hans res hprog
    unfold Outline.Answered at hans
    rw [hreq] at hans
    refine ⟨hans hreuse, ?_⟩
    -- the facts of the other payload are still there, and all facts of the id are of one payload
    rintro ⟨f, hf, hown⟩
    rcases hinv.bound p.subject p.cmd.commandId with ⟨q, hq, _⟩
    rcases hreuse with ⟨g, hg, hother⟩
    rcases mem_causedBy.1 hg with ⟨hmem, hcaused⟩
    have hg := hq g (mem_causedBy.2 ⟨hgrow.mem_factsOf hmem, hcaused⟩)
    exact hother (hg.trans ((hq f hf).symm.trans hown))

/-! ## Runs that reuse an id -/

def privilegedOutcome (th : Thread Ans Call World CommandResult) :
    Option (CommandResult × Privileged) :=
  match th.prog, th.call.request with
  | .ret res, .privileged p => some (res, p)
  | _, _ => none

theorem privilegedOutcome_some {th : Thread Ans Call World CommandResult} {res : CommandResult}
    {p : Privileged} (h : privilegedOutcome th = some (res, p)) :
    th.prog = .ret res ∧ th.call.request = .privileged p := by
  unfold privilegedOutcome at h
  split at h
  · rename_i hprog hreq
    cases h
    exact ⟨hprog, hreq⟩
  · cases h

/-- The verdict on the `i`-th call: whether it reuses its id, its status, and whether the log has a
fact of its payload. -/
def reuseVerdict (i : Nat) (cfg : Config Ans Call World CommandResult) :
    Option (Bool × Status × Bool) :=
  cfg.pool[i]?.bind fun th => (privilegedOutcome th).map fun out =>
    (decide (out.2.Reuses th.born.broker), out.1.status, decide (out.2.Appended cfg.world.broker))

theorem reuseVerdict_some {i : Nat} {cfg : Config Ans Call World CommandResult} {x y : Bool}
    {s : Status} (h : reuseVerdict i cfg = some (x, s, y)) :
    ∃ th ∈ cfg.pool, ∃ res p, th.prog = .ret res ∧ th.call.request = .privileged p ∧
      decide (p.Reuses th.born.broker) = x ∧ res.status = s ∧
      decide (p.Appended cfg.world.broker) = y := by
  rcases Option.bind_eq_some_iff.1 h with ⟨th, hget, hout⟩
  rcases Option.map_eq_some_iff.1 hout with ⟨⟨res, p⟩, hth, htriple⟩
  rcases privilegedOutcome_some hth with ⟨hprog, hreq⟩
  rcases Prod.mk.inj htriple with ⟨hx, hrest⟩
  rcases Prod.mk.inj hrest with ⟨hs, hy⟩
  exact ⟨th, List.mem_of_getElem? hget, res, p, hprog, hreq, hx, hs, hy⟩

namespace Scenario

/-- The id `p` assigns `A`, then transfers to `A` from `B`.  The facts of the transfer include the
one that is recorded, so the binding test passes; the join is replayed and the leave is appended. -/
def assignThenTransfer : Schedule :=
  [.spawn (ordinary 1 backend "s" "interaction.started" [])] ++ acts 0 (write cold .go) ++
  [.spawn (privileged 1 "p" "participant.assign" "A" "")] ++ acts 1 (land warm .go) ++
  [.spawn (privileged 1 "p" "participant.transfer" "A" "B")] ++
    acts 2 (warm ++ [.go, .go] ++ warm ++ [.go, .go] ++ write warm .go ++ [.go, .go])

/-- The id `p` transfers to `A` from `B`, then assigns `C`, which the binding test refuses. -/
def transferThenAssign : Schedule :=
  [.spawn (ordinary 1 backend "s" "interaction.started" [])] ++ acts 0 (write cold .go) ++
  [.spawn (privileged 1 "p" "participant.transfer" "A" "B")] ++
    acts 1 (warm ++ [.go, .go] ++ write warm .go ++ write warm .go ++ [.go, .go]) ++
  [.spawn (privileged 1 "p" "participant.assign" "C" "")] ++ acts 2 (warm ++ [.go, .go])

def transferCommands : List Command :=
  [⟨"s", "t", "desk", "interaction.started", "", "", []⟩,
    ⟨"p:participant.joined:A", "t", "A", "participant.joined", "", "", []⟩,
    ⟨"p:participant.left:B", "t", "B", "participant.left", "", "", []⟩,
    ⟨"p:participant.joined:C", "t", "C", "participant.joined", "", "", []⟩]

end Scenario

open Scenario in
/-- Without the condition a call that reuses the id for another payload is accepted, and its fact is
in the log. -/
theorem privileged_rebound : ∃ cfg : Config Ans Call World CommandResult,
    Reachable machine handleCommand remembering World.start cfg ∧
      ∃ th ∈ cfg.pool, ∃ res p, th.prog = .ret res ∧ th.call.request = .privileged p ∧
        p.Reuses th.born.broker ∧ res.status = .accepted ∧ p.Appended cfg.world.broker := by
  have hrun : (run machine handleCommand remembering assignThenTransfer ⟨World.start, []⟩).map
      (reuseVerdict 2) = some (some (true, .accepted, true)) := by
    decide +kernel
  rcases exists_of_run hrun with ⟨cfg, hcfg, hverdict⟩
  rcases reuseVerdict_some hverdict with ⟨th, hth, res, p, hprog, hreq, hreuse, hs, happ⟩
  exact ⟨cfg, hcfg, th, hth, res, p, hprog, hreq, of_decide_eq_true hreuse, hs,
    of_decide_eq_true happ⟩

instance (b₀ : LogStore) (w : World) (op : Op) (ch : Choice) : Decidable (BindOk b₀ w op ch) :=
  match op with
  | .lock (.parents p) o =>
    inferInstanceAs (Decidable (p.Reuses b₀ → ∀ cell ∈ w.heap[o]?, p.diverges cell.st = true))
  | .append author subject ev id expected =>
    inferInstanceAs (Decidable (isParticipationFact ev.eventType = true →
      (ch ≠ .fail → w.broker.window.lookup id = none →
        lastSeq subject w.broker.stream = expected →
        (∀ g ∈ causedBy ev.causedBy (factsSince b₀ w.broker subject),
          g.author.payload = author.payload) ∧ ∀ m ∈ w.broker.stream, m.id ≠ id) ∧
      ∀ n ∈ duplicateOf w subject id expected ch, ∀ m ∈ w.broker.stream[n - 1]?,
        m.payload.event.payloadHash = ev.payloadHash))
  | .lock (.command _) _ | .lock (.fact ..) _ | .lock (.bind _) _ | .replay .. | .now | .newID
  | .interGet .. | .interPut .. | .interDelete .. | .loadJoin .. | .loadWait _ | .loadDone ..
  | .unlock .. => .isTrue trivial

open Scenario in
theorem privileged_bound_transferThenAssign : ∃ cfg : Config Ans Call World CommandResult,
    Reachable machine handleCommand (bindPolicy {x | x ∈ transferCommands}) World.start cfg ∧
      ((∀ tenant iid id, ∃ q : Payload,
          (causedBy id (factsOf cfg.world.broker (logSubjectFor tenant iid))).map Fact.planned <+:
            q.facts ∧
          ((causedBy id (factsOf cfg.world.broker (logSubjectFor tenant iid))).map
            Fact.planned).Nodup) ∧
        ∃ th ∈ cfg.pool, ∃ res p, th.prog = .ret res ∧ th.call.request = .privileged p ∧
          p.Reuses th.born.broker ∧ res.status = .rejected ∧ ¬ p.Appended cfg.world.broker) := by
  have hrun : (run machine handleCommand (bindPolicy {x | x ∈ transferCommands})
      transferThenAssign ⟨World.start, []⟩).map (reuseVerdict 2) =
        some (some (true, .rejected, false)) := by
    decide +kernel
  have hH : CollisionFree {x | x ∈ transferCommands} := by
    decide +kernel
  rcases exists_of_run hrun with ⟨cfg, hcfg, hverdict⟩
  rcases reuseVerdict_some hverdict with ⟨th, hth, res, p, hprog, hreq, hreuse, _, _⟩
  have hreuse := of_decide_eq_true hreuse
  rcases privileged_bound hH hcfg with ⟨hlog, hcalls⟩
  exact ⟨cfg, hcfg, hlog, th, hth, res, p, hprog, hreq, hreuse,
    hcalls th hth res p hprog hreq hreuse⟩

end RelayPoint.Signaling
