import RelayPoint.Signaling.Binding

/-!
# Transfer — a transfer leaves no gap in the membership

A transfer lands two facts by two appends, each of which may fail before or after it committed: the
new agent joins, then the old one leaves.  `handleParticipation` keeps the order, the dedup entries
and the broker's duplicate window keep each fact single, and so the log of a transfer that is driven
alone is at every moment what it was before, followed by an initial part of the two facts.
-/

namespace RelayPoint.Signaling

open Concurrency Journal

/-! ## Accepted entries are about recorded commands -/

def Recorded (b : LogStore) (id : String) : Prop :=
  ∃ m ∈ b.stream, m.payload.event.commandId = id

/-- The accepted dedup entries of a state are about command ids that facts of the store carry. -/
def Witnessed (b : LogStore) (st : InteractionState) : Prop :=
  ∀ id sr, st.results.lookup id = some sr → sr.result.status = .accepted → Recorded b id

section Witnessed

variable {b b' : LogStore} {st st' fresh : InteractionState} {id : String} {max : Nat}

theorem Recorded.mono (hb : Extends b b') (h : Recorded b id) : Recorded b' id := by
  rcases h with ⟨m, hm, hid⟩
  exact ⟨m, hb.mem hm, hid⟩

theorem recorded_commit (b : LogStore) (m : Msg String String Fact) :
    Recorded (b.commit m) m.payload.event.commandId :=
  ⟨m, by simp [Broker.commit], rfl⟩

theorem recorded_of_lookup {t i : String} {n : Nat} (ht : DotFree t) (hi : DotFree i)
    (hs : Sound b) (h : b.window.lookup (dedupID t i id) = some n) : Recorded b id := by
  rcases hs.original ht hi h with ⟨m, _, hget, _, hid⟩
  exact ⟨m, List.mem_of_getElem? hget, hid⟩

theorem Witnessed.mono (hb : Extends b b') (h : Witnessed b st) : Witnessed b' st :=
  fun id sr hl hacc => (h id sr hl hacc).mono hb

theorem Witnessed.congr (h : Witnessed b st) (hres : st'.results = st.results) :
    Witnessed b st' := by
  intro id sr hl hacc
  rw [hres] at hl
  exact h id sr hl hacc

theorem Witnessed.put {sr : StoredResult} (h : Witnessed b st)
    (hnew : sr.result.status = .accepted → Recorded b id)
    (hres : st'.results = st.results.put id sr max) : Witnessed b st' := by
  intro id' sr' hl hacc
  rw [hres] at hl
  rcases FifoCache.lookup_put hl with ⟨rfl, rfl⟩ | ⟨_, hold⟩
  · exact hnew hacc
  · exact h id' sr' hold hacc

theorem Witnessed.refold (h : Witnessed b st) (hf : Witnessed b fresh) :
    Witnessed b (st.refold fresh max) := by
  intro id sr hl hacc
  rcases FifoCache.lookup_copyMissing hl with hold | hnew
  · exact h id sr hold hacc
  · exact hf id sr hnew hacc

theorem witnessed_built (b : LogStore) (subject : String) (max : Nat) :
    Witnessed b (built b subject max) := by
  intro id sr hl _
  rcases built_lookup hl with ⟨f, hf, hid, _⟩
  rcases List.mem_map.1 hf with ⟨m, hm, rfl⟩
  exact ⟨m, (mem_log.1 hm).1, hid⟩

theorem Witnessed.precheck {c : Ordinary} (h : Witnessed b st)
    {out : CommandResult × InteractionState} (hpre : c.precheck max st = some out) :
    Witnessed b out.2 := by
  rcases Ordinary.precheck_some hpre with ⟨_, _, hst, _⟩ | hgates
  · simpa only [hst] using h
  · rcases Ordinary.gates_some hgates with ⟨_, hst⟩ | ⟨hres, hst⟩
    · simpa only [hst] using h
    · rw [hst]
      refine h.put ?_ rfl
      simp [hres]

theorem Witnessed.onDuplicate {c : Ordinary} (h : Witnessed b st)
    (horig : Recorded b c.cmd.commandId) :
    Witnessed b (c.onDuplicate max st (built b c.subject max)).2 := by
  have hmerged : Witnessed b (st.refold (built b c.subject max) max) :=
    h.refold (witnessed_built b c.subject max)
  rcases c.onDuplicate_cases max st (built b c.subject max) with
    ⟨_, _, _, _, hout⟩ | ⟨_, _, _, hout⟩ | ⟨_, hout⟩
  · simpa only [hout] using hmerged
  · simpa only [hout] using hmerged
  · rw [hout]
    exact hmerged.put (fun _ => horig) rfl

end Witnessed

/-- The proof outline for runs of any kind: participation facts are named after their cause, and
accepted entries are about recorded commands. -/
def recordOutline : Outline where
  okOrdinary _ := True
  okPrivileged _ := True
  ok _ _ _ _ := True
  mayForget := True
  Inv b := ∀ m ∈ b.stream, SubIdentified m
  Obj b _ st := Witnessed b st
  Ready _ b _ st := Witnessed b st
  Replied _ _ _ _ := True
  Cleared _ _ _ _ := True
  FactReady _ b _ _ _ st := Witnessed b st
  Settled _ _ _ _ := True
  mono := {
    obj := fun hb h => h.mono hb
    ready := fun hb h => h.mono hb
    replied := fun _ _ => trivial
    cleared := fun _ _ => trivial
    factReady := fun hb h => h.mono hb
    settled := fun _ _ => trivial }
  inv_empty := fun m hm => by simp [Broker.empty] at hm
  inv_forget := fun _ _ h => h
  obj_built := fun _ _ _ _ => witnessed_built _ _ _
  obj_poison := fun h => h.congr rfl
  ready := fun _ _ _ _ _ _ h _ => h
  obj_of_ready := fun h => h
  precheck := fun _ _ h hpre => ⟨trivial, h.precheck hpre⟩
  commit := by
    intro b₀ b c st max eventId at_ _ hinv h _ _ _
    refine ⟨?_, ?_, trivial⟩
    · intro m hm
      rcases List.mem_append.1 hm with hm | hm
      · exact hinv m hm
      · have hm : m = c.message st eventId at_ := by simpa using hm
        intro hfact
        rw [hm] at hfact
        exact absurd (hfact.symm.trans c.not_fact) (by simp)
    · have hold := h.mono (extends_commit b (c.message st eventId at_))
      exact hold.put (fun _ => recorded_commit b (c.message st eventId at_)) rfl
  refold := fun _ _ h _ _ => h.refold (witnessed_built _ _ _)
  retried := fun _ => trivial
  lostAck := fun _ _ h _ _ => ⟨trivial, h.congr rfl⟩
  duplicate := by
    intro w b₀ c st max hs _ h _ horig _
    rcases horig with ⟨m, hm, hid⟩
    exact ⟨trivial, h.onDuplicate ⟨m, hm, (hs.of_id c.tenant_dotFree c.iid_dotFree hm hid).2⟩⟩
  unreadable := fun _ _ _ _ _ => trivial
  refused := fun _ => trivial
  cleared := fun _ _ _ _ _ _ _ _ => trivial
  factReady := fun _ _ _ _ _ h _ => h
  obj_of_factReady := fun h => h
  replayed := fun _ _ _ _ _ => trivial
  commitFact := by
    intro w b₀ p landed f st max eventId at_ ch _ _ hinv h _ _ _ _
    refine ⟨?_, ?_, trivial⟩
    · intro m hm
      rcases List.mem_append.1 hm with hm | hm
      · exact hinv m hm
      · have hm : m = p.message f st eventId at_ := by simpa using hm
        rw [hm]
        exact fun _ => rfl
    · have hold := h.mono (extends_commit w.broker (p.message f st eventId at_))
      exact hold.put (fun _ => recorded_commit w.broker (p.message f st eventId at_)) rfl
  duplicateFact := by
    intro w b₀ p landed f st max n eventId at_ ch hs _ h _ hdup _
    have hrec := recorded_of_lookup p.tenant_dotFree p.iid_dotFree hs
      (Outline.lookup_of_duplicateOf hdup)
    exact ⟨h.put (fun _ => hrec) rfl, trivial⟩
  refoldFact := fun _ _ h _ => h.refold (witnessed_built _ _ _)
  bound := fun _ _ _ h => h.congr rfl
  settled := fun _ _ _ => trivial

theorem recordOutline_policy {w₀ : World} {c : Config Ans Call World CommandResult}
    (h : Reachable machine handleCommand .free w₀ c) :
    Reachable machine handleCommand recordOutline.policy w₀ c := by
  refine Reachable.mono ?_ ?_ ?_ h
  · intro call _
    exact call.meets_trivial
  · intro _ _ _ _ _
    trivial
  · intro w t _
    cases t with
    | _ => trivial

/-! ## The messages of a transfer -/

structure Landing where
  subject : String
  id : String
  fact : PlannedFact
  commandId : String
  causedBy : String

def landingOf (m : Msg String String Fact) : Landing where
  subject := m.subject
  id := m.id
  fact := m.payload.planned
  commandId := m.payload.event.commandId
  causedBy := m.payload.event.causedBy

def Privileged.landing (p : Privileged) (f : PlannedFact) : Landing where
  subject := p.subject
  id := p.dedupID f
  fact := f
  commandId := p.subID f
  causedBy := p.cmd.commandId

/-- `q` delivers the command `p` again: the same id with the same facts for the same interaction,
from whatever backend. -/
structure Privileged.Redelivers (q p : Privileged) : Prop where
  tenant : q.tenant = p.tenant
  iid : q.iid = p.iid
  commandId : q.cmd.commandId = p.cmd.commandId
  facts : q.facts = p.facts

section Landing

variable {p q : Privileged} {f g : PlannedFact}

theorem Privileged.Redelivers.subID (h : q.Redelivers p) (f : PlannedFact) :
    q.subID f = p.subID f := by
  simp [Privileged.subID, h.commandId]

theorem Privileged.Redelivers.dedupID (h : q.Redelivers p) (f : PlannedFact) :
    q.dedupID f = p.dedupID f := by
  simp [Privileged.dedupID, h.tenant, h.iid, h.subID f]

theorem Privileged.Redelivers.landing_message (h : q.Redelivers p) (f : PlannedFact)
    (st : InteractionState) (eventId : String) (at_ : Nat) :
    landingOf (q.message f st eventId at_) = p.landing f := by
  have hsubject : q.subject = p.subject := by
    simp [Privileged.subject, h.tenant, h.iid]
  have hcause : q.cmd.commandId = p.cmd.commandId := h.commandId
  simp only [landingOf, Privileged.landing, Privileged.message, hsubject, h.dedupID f,
    Fact.planned, Privileged.factEvent, h.subID f, hcause]

theorem Privileged.subID_inj (hf : f ∈ p.facts) (hg : g ∈ p.facts)
    (h : p.subID f = p.subID g) : f = g := by
  have htypes : ∀ {x : PlannedFact}, x ∈ p.facts →
      x.eventType = "participant.joined" ∨ x.eventType = "participant.left" := by
    intro x hx
    simpa [Signaling.isParticipationFact] using Privileged.isParticipationFact hx
  have hlist := congrArg String.toList h
  simp only [Privileged.subID] at hlist
  rcases f with ⟨ft, fa⟩
  rcases g with ⟨gt, ga⟩
  rcases htypes hf with rfl | rfl <;> rcases htypes hg with rfl | rfl
  · simpa [String.toList_inj] using hlist
  · simp at hlist
  · simp at hlist
  · simpa [String.toList_inj] using hlist

end Landing

/-! ## The invariant of a transfer that is driven alone -/

/-- The store has gained an initial part of the facts of the command, in order, and still remembers
their ids. -/
def Progress (base : LogStore) (p : Privileged) (b : LogStore) : Prop :=
  ∃ (new : List (Msg String String Fact)) (done : List PlannedFact),
    b.stream = base.stream ++ new ∧ done <+: p.facts ∧ new.map landingOf = done.map p.landing ∧
      ∀ m ∈ new, b.window.lookup m.id ≠ none

def Unseen (p : Privileged) (b : LogStore) : Prop :=
  ∀ m ∈ b.stream, ∀ f ∈ p.facts, m.payload.event.commandId ≠ p.subID f
  deriving Decidable

section Progress

variable {base b : LogStore} {p q : Privileged} {f : PlannedFact} {landed : List PlannedFact}

theorem Progress.start (h : b.stream = base.stream) : Progress base p b :=
  ⟨[], [], by simp [h], List.nil_prefix, rfl, by simp⟩

variable {new : List (Msg String String Fact)} {done : List PlannedFact}

theorem mem_done (hmap : new.map landingOf = done.map p.landing) {m : Msg String String Fact}
    (hm : m ∈ new) : ∃ f ∈ done, landingOf m = p.landing f := by
  have hmem : landingOf m ∈ done.map p.landing := by
    rw [← hmap]
    exact List.mem_map_of_mem hm
  rcases List.mem_map.1 hmem with ⟨f, hf, heq⟩
  exact ⟨f, hf, heq.symm⟩

theorem mem_new (hmap : new.map landingOf = done.map p.landing) (hf : f ∈ done) :
    ∃ m ∈ new, landingOf m = p.landing f := by
  have hmem : p.landing f ∈ new.map landingOf := by
    rw [hmap]
    exact List.mem_map_of_mem hf
  exact List.mem_map.1 hmem

theorem done_of_recorded (hfresh : Unseen p base) (hstream : b.stream = base.stream ++ new)
    (hdone : done <+: p.facts) (hmap : new.map landingOf = done.map p.landing) (hf : f ∈ p.facts)
    (hrec : Recorded b (p.subID f)) : f ∈ done := by
  rcases hrec with ⟨m, hm, hid⟩
  rw [hstream] at hm
  rcases List.mem_append.1 hm with hold | hnew
  · exact absurd hid (hfresh m hold f hf)
  · rcases mem_done hmap hnew with ⟨g, hg, hland⟩
    have hgid : m.payload.event.commandId = p.subID g := congrArg Landing.commandId hland
    have hfg : f = g := Privileged.subID_inj hf (hdone.subset hg) (hid.symm.trans hgid)
    rw [hfg]
    exact hg

theorem Progress.commit (hfresh : Unseen p base) (h : Progress base p b) (hq : q.Redelivers p)
    {rest : List PlannedFact} (hfacts : p.facts = landed ++ f :: rest)
    (hlanded : ∀ g ∈ landed, Recorded b (p.subID g)) (hnone : b.window.lookup (p.dedupID f) = none)
    (st : InteractionState) (eventId : String) (at_ : Nat) :
    Progress base p (b.commit (q.message f st eventId at_)) := by
  rcases h with ⟨new, done, hstream, hdone, hmap, hwindow⟩
  have hland := hq.landing_message f st eventId at_
  have hdone_eq : done = landed := by
    refine eq_of_isPrefixOf_of_subset (hfacts ▸ hdone) ?_ ?_ ?_
    · -- the id of a fact that was gained is remembered, so its append would be a duplicate
      intro hmem
      rcases mem_new hmap hmem with ⟨m, hm, heq⟩
      have hid : m.id = p.dedupID f := congrArg Landing.id heq
      exact hwindow m hm (hid ▸ hnone)
    · intro g hg
      exact done_of_recorded hfresh hstream hdone hmap (by simp [hfacts, hg]) (hlanded g hg)
    · have hnodup := p.payload.facts_nodup
      rw [p.payload_facts, hfacts] at hnodup
      exact (List.nodup_append.1 hnodup).1
  refine ⟨new ++ [q.message f st eventId at_], done ++ [f], ?_, ?_, ?_, ?_⟩
  · simp [Broker.commit, hstream]
  · rw [hdone_eq, hfacts]
    exact ⟨rest, by simp⟩
  · simp [hmap, hland]
  · intro m hm
    by_cases hid : m.id = (q.message f st eventId at_).id
    · simp [Broker.commit, hid]
    · rcases List.mem_append.1 hm with hm | hm
      · have hne : (m.id == (q.message f st eventId at_).id) = false := by simpa using hid
        simpa [Broker.commit, List.lookup_cons, hne] using hwindow m hm
      · have hm : m = q.message f st eventId at_ := by simpa using hm
        exact absurd (congrArg Msg.id hm) hid

end Progress

/-- The proof outline for runs that only deliver the command `p`, from the store `base` on. -/
def transferOutline (base : LogStore) (p : Privileged) (hfresh : Unseen p base) : Outline where
  okOrdinary _ := False
  okPrivileged q := q.Redelivers p
  ok _ _ _ _ := True
  mayForget := False
  Inv b := Extends base b → Progress base p b
  Obj b _ st := Witnessed b st
  Ready _ _ _ _ := False
  Replied _ _ _ _ := True
  Cleared _ b q landed := q.Redelivers p ∧ ∀ f ∈ landed, Recorded b (p.subID f)
  FactReady _ b q landed f st :=
    (q.Redelivers p ∧ ∀ g ∈ landed, Recorded b (p.subID g)) ∧
      (∃ rest, q.facts = landed ++ f :: rest) ∧ Witnessed b st
  Settled _ b _ res := res.status = .accepted → ∀ f ∈ p.facts, Recorded b (p.subID f)
  mono := {
    obj := fun hb h => h.mono hb
    ready := fun _ h => h
    replied := fun _ _ => trivial
    cleared := fun hb h => ⟨h.1, fun f hf => (h.2 f hf).mono hb⟩
    factReady := fun hb h => ⟨⟨h.1.1, fun g hg => (h.1.2 g hg).mono hb⟩, h.2.1, h.2.2.mono hb⟩
    settled := fun hb h hacc f hf => (h hacc f hf).mono hb }
  inv_empty := fun hb => Progress.start (List.prefix_nil.1 hb).symm
  inv_forget := fun _ hno => hno.elim
  obj_built := fun _ _ _ _ => witnessed_built _ _ _
  obj_poison := fun h => h.congr rfl
  ready := fun hno => hno.elim
  obj_of_ready := fun hno => hno.elim
  precheck := fun _ _ hno => hno.elim
  commit := fun _ _ _ _ hno => hno.elim
  refold := fun _ _ hno => hno.elim
  retried := fun _ => trivial
  lostAck := fun _ _ hno => hno.elim
  duplicate := fun _ _ hno => hno.elim
  unreadable := fun _ _ hno => hno.elim
  refused := fun hrej hacc => absurd (hrej.symm.trans hacc) (by simp)
  cleared := fun hq _ _ _ _ _ _ _ => ⟨hq, by simp⟩
  factReady := fun hcl hfacts _ _ _ h _ => ⟨hcl, ⟨_, hfacts⟩, h⟩
  obj_of_factReady := fun h => h.2.2
  replayed := by
    intro b₀ b q landed f st res _ _ h hcheck hacc
    rcases h with ⟨⟨hq, hlanded⟩, _, hwit⟩
    rcases Privileged.checkFact_accepted hcheck hacc with ⟨prev, hprev, hstatus, _⟩
    have hrec := hwit _ _ hprev hstatus
    rw [hq.subID f] at hrec
    refine ⟨hq, ?_⟩
    intro g hg
    rcases List.mem_append.1 hg with hg | hg
    · exact hlanded g hg
    · have hg : g = f := by simpa using hg
      rw [hg]
      exact hrec
  commitFact := by
    intro w b₀ q landed f st max eventId at_ ch _ _ hinv h _ hnone _ _
    rcases h with ⟨⟨hq, hlanded⟩, ⟨rest, hfacts⟩, hwit⟩
    have hgrow := extends_commit w.broker (q.message f st eventId at_)
    have hrec := recorded_commit w.broker (q.message f st eventId at_)
    refine ⟨?_, (hwit.mono hgrow).put (fun _ => hrec) rfl, hq, ?_⟩
    · intro hb
      rcases List.prefix_concat_iff.1 hb with heq | hb
      · exact Progress.start heq.symm
      · rw [hq.facts] at hfacts
        rw [hq.dedupID f] at hnone
        exact (hinv hb).commit hfresh hq hfacts hlanded hnone st eventId at_
    · intro g hg
      rcases List.mem_append.1 hg with hg | hg
      · exact (hlanded g hg).mono hgrow
      · have hg : g = f := by simpa using hg
        rw [hg, ← hq.subID f]
        exact hrec
  duplicateFact := by
    intro w b₀ q landed f st max n eventId at_ ch hs _ h _ hdup _
    rcases h with ⟨⟨hq, hlanded⟩, _, hwit⟩
    have hrec := recorded_of_lookup q.tenant_dotFree q.iid_dotFree hs
      (Outline.lookup_of_duplicateOf hdup)
    refine ⟨hwit.put (fun _ => hrec) rfl, hq, ?_⟩
    intro g hg
    rcases List.mem_append.1 hg with hg | hg
    · exact hlanded g hg
    · have hg : g = f := by simpa using hg
      rw [hg, ← hq.subID f]
      exact hrec
  refoldFact := fun _ _ h _ => ⟨h.1, h.2.1, h.2.2.refold (witnessed_built _ _ _)⟩
  bound := fun _ _ _ h => h.congr rfl
  settled := by
    intro b₀ b q _ _ h _ f hf
    rw [← h.1.facts] at hf
    exact h.2 f hf

/-! ## Membership along a transfer -/

theorem factsOf_append {base b : LogStore} {subject : String} {new : List (Msg String String Fact)}
    (hstream : b.stream = base.stream ++ new) (hsubject : ∀ m ∈ new, m.subject = subject) :
    factsOf b subject = factsOf base subject ++ new.map Msg.payload := by
  have hnew : log subject new = new := List.filter_eq_self.2 (by simpa using hsubject)
  simp only [factsOf, hstream, log_append, List.map_append, hnew]

section Membership

variable {p : Privileged} {fs : List Fact} {m : Msg String String Fact} {a : String}

theorem Privileged.transfer_facts (htype : p.cmd.type = "participant.transfer") :
    p.facts = [⟨"participant.joined", p.pd.agent⟩, ⟨"participant.left", p.pd.from⟩] := by
  have hplan := p.planned
  simp only [planFacts, htype] at hplan
  split at hplan
  · next h => simp at h
  · split at hplan
    · next h => simp at h
    · simp only [if_true] at hplan
      split at hplan
      · cases hplan
      · exact (Except.ok.inj hplan).symm

theorem isMember_joined (hm : landingOf m = p.landing ⟨"participant.joined", a⟩) (agent : String) :
    isMember (fs ++ [m.payload]) agent = (decide (agent = a) || isMember fs agent) := by
  have hplanned : m.payload.planned = ⟨"participant.joined", a⟩ := congrArg Landing.fact hm
  have htype : m.payload.event.eventType = "participant.joined" :=
    congrArg PlannedFact.eventType hplanned
  have hactor : m.payload.event.actorId = a := congrArg PlannedFact.agent hplanned
  rw [isMember_concat]
  by_cases ha : agent = a
  all_goals simp [ParticipationView.nowAfter, htype, hactor]

theorem isMember_left (hm : landingOf m = p.landing ⟨"participant.left", a⟩) (agent : String) :
    isMember (fs ++ [m.payload]) agent = (!decide (agent = a) && isMember fs agent) := by
  have hplanned : m.payload.planned = ⟨"participant.left", a⟩ := congrArg Landing.fact hm
  have htype : m.payload.event.eventType = "participant.left" :=
    congrArg PlannedFact.eventType hplanned
  have hactor : m.payload.event.actorId = a := congrArg PlannedFact.agent hplanned
  rw [isMember_concat]
  by_cases ha : agent = a
  all_goals simp [ParticipationView.nowAfter, htype, hactor]

theorem covered_of_done {from_ agent : String} (hdistinct : from_ ≠ agent)
    (hmember : isMember fs from_ = true) {new : List (Msg String String Fact)}
    {done : List PlannedFact}
    (hdone : done <+: [⟨"participant.joined", agent⟩, ⟨"participant.left", from_⟩])
    (hmap : new.map landingOf = done.map p.landing) :
    (isMember (fs ++ new.map Msg.payload) from_ = true ∨
      isMember (fs ++ new.map Msg.payload) agent = true) ∧
    (new ≠ [] → isMember (fs ++ new.map Msg.payload) agent = true) := by
  cases new with
  | nil => simpa using Or.inl hmember
  | cons joined new =>
    cases done with
    | nil => simp at hmap
    | cons f done =>
      rcases List.cons_prefix_cons.1 hdone with ⟨rfl, hrest⟩
      rcases List.cons.inj hmap with ⟨hjoined, hmap⟩
      have hin : isMember (fs ++ [joined.payload]) agent = true := by
        simp [isMember_joined hjoined]
      cases new with
      | nil => exact ⟨.inr hin, fun _ => hin⟩
      | cons left new =>
        cases done with
        | nil => simp at hmap
        | cons g done =>
          rcases List.cons_prefix_cons.1 hrest with ⟨rfl, hnone⟩
          rcases List.cons.inj hmap with ⟨hleft, hmap⟩
          have hnew : new = [] := by
            rw [List.prefix_nil.1 hnone] at hmap
            simpa using hmap
          have hstays : isMember (fs ++ [joined.payload] ++ [left.payload]) agent = true := by
            rw [isMember_left hleft, hin]
            simp [Ne.symm hdistinct]
          have hstays : isMember (fs ++ (joined :: left :: new).map Msg.payload) agent =
              true := by
            simpa [hnew] using hstays
          exact ⟨.inr hstays, fun _ => hstays⟩

end Membership

/-! ## Runs that drive a transfer -/

/-- The runs that deliver the command `p` again and again, to any router, and nothing else.  Appends
and replays fail as they like; the broker does not forget the ids of messages meanwhile. -/
abbrev driving (p : Privileged) : Policy Op Call World Choice Tick where
  spawn call := ∃ q, call.request = .privileged q ∧ q.Redelivers p
  op _ _ _ _ := True
  tick _ t := ∀ id, t ≠ .forget id

def Privileged.landed (p : Privileged) (fs : List Fact) : List PlannedFact :=
  ((causedBy p.cmd.commandId fs).map Fact.planned).filter (· ∈ p.facts)

section Drive

variable {base b : LogStore} {p : Privileged} {c₀ c : Config Ans Call World CommandResult}

theorem Privileged.landed_nil (hnamed : ∀ m ∈ base.stream, SubIdentified m)
    (hfresh : Unseen p base) : p.landed (factsOf base p.subject) = [] := by
  refine List.filter_eq_nil_iff.2 ?_
  intro f hf hmem
  have hmem : f ∈ p.facts := by simpa using hmem
  rcases List.mem_map.1 hf with ⟨g, hg, rfl⟩
  rcases mem_causedBy.1 hg with ⟨hg, hfact, hcause⟩
  rcases List.mem_map.1 hg with ⟨m, hm, rfl⟩
  have hm := (mem_log.1 hm).1
  have hid := hnamed m hm hfact
  rw [hcause] at hid
  exact hfresh m hm _ hmem hid

theorem Privileged.landed_append {fs : List Fact} {new : List (Msg String String Fact)}
    {done : List PlannedFact} (hdone : done <+: p.facts)
    (hmap : new.map landingOf = done.map p.landing) :
    p.landed (fs ++ new.map Msg.payload) = p.landed fs ++ done := by
  have hcaused : causedBy p.cmd.commandId (new.map Msg.payload) = new.map Msg.payload := by
    refine List.filter_eq_self.2 ?_
    intro g hg
    rcases List.mem_map.1 hg with ⟨m, hm, rfl⟩
    rcases mem_done hmap hm with ⟨f, hf, hland⟩
    have htype : m.payload.event.eventType = f.eventType :=
      congrArg (fun l => l.fact.eventType) hland
    have hcause : m.payload.event.causedBy = p.cmd.commandId := congrArg Landing.causedBy hland
    have hfact := Privileged.isParticipationFact (hdone.subset hf)
    exact decide_eq_true ⟨by rw [htype]; exact hfact, hcause⟩
  have hplanned : (new.map Msg.payload).map Fact.planned = done := by
    have := congrArg (List.map Landing.fact) hmap
    simpa [Function.comp_def, landingOf, landing] using this
  have hkept : done.filter (· ∈ p.facts) = done :=
    List.filter_eq_self.2 fun f hf => by simpa using hdone.subset hf
  have hsplit : causedBy p.cmd.commandId (fs ++ new.map Msg.payload) =
      causedBy p.cmd.commandId fs ++ causedBy p.cmd.commandId (new.map Msg.payload) := by
    simp [causedBy]
  simp only [landed, hsplit, hcaused, List.map_append, List.filter_append, hplanned, hkept]

theorem progress_of_drive (hbefore : Reachable machine handleCommand .free World.start c₀)
    (hfresh : Unseen p c₀.world.broker)
    (h : Reachable machine handleCommand (driving p) c₀.world c) :
    Progress c₀.world.broker p c.world.broker ∧
      ∀ th ∈ c.pool, ∀ res, th.prog = .ret res → res.status = .accepted →
        ∀ f ∈ p.facts, Recorded c.world.broker (p.subID f) := by
  rcases recordOutline.sound_from Outline.WorldInv.start (recordOutline_policy hbefore) with
    ⟨_, hworld, _⟩
  have hstart : (transferOutline c₀.world.broker p hfresh).WorldInv c₀.world :=
    { sound := hworld.sound
      inv := fun _ => Progress.start rfl
      obj := hworld.obj
      inter := hworld.inter
      load := hworld.load
      flights := hworld.flights }
  have hreach : Reachable machine handleCommand (transferOutline c₀.world.broker p hfresh).policy
      c₀.world c := by
    refine Reachable.mono ?_ ?_ ?_ h
    · rintro call ⟨q, hreq, hq⟩
      simp only [Outline.policy, Call.Meets, hreq]
      exact hq
    · intro _ _ _ _ _
      trivial
    · intro w t ht
      cases t with
      | forget id => exact absurd rfl (ht id)
      | _ => trivial
  rcases (transferOutline c₀.world.broker p hfresh).sound_from hstart hreach with
    ⟨hgrow, hworld', hpool⟩
  refine ⟨hworld'.inv hgrow, ?_⟩
  intro th hth res hprog hacc
  -- only deliveries of the command were spawned
  have hspawned : (driving p).spawn th.call :=
    h.threads (T := fun call _ => (driving p).spawn call) (fun _ hcall => hcall)
      (fun _ _ _ _ hcall => hcall) th hth
  rcases hspawned with ⟨q, hreq, _⟩
  have hans := (hpool th hth).2 res hprog
  unfold Outline.Answered at hans
  rw [hreq] at hans
  exact hans hacc

/-- A transfer between two agents, the first of whom is a participant, that is driven alone from its
first attempt on by routers whose broker does not forget: in every initial part of the log since then
one of the two is a participant; once a delivery is accepted the new agent is, and the log has exactly
one join and one leave of the command, in this order. -/
theorem transfer_no_gap (hbefore : Reachable machine handleCommand .free World.start c₀)
    (htype : p.cmd.type = "participant.transfer") (hdistinct : p.pd.from ≠ p.pd.agent)
    (hmember : isMember (factsOf c₀.world.broker p.subject) p.pd.from = true)
    (hfresh : Unseen p c₀.world.broker)
    (h : Reachable machine handleCommand (driving p) c₀.world c) :
    (∀ fs, factsOf c₀.world.broker p.subject <+: fs → fs <+: factsOf c.world.broker p.subject →
      isMember fs p.pd.from = true ∨ isMember fs p.pd.agent = true) ∧
    ∀ th ∈ c.pool, ∀ res, th.prog = .ret res → res.status = .accepted →
      isMember (factsOf c.world.broker p.subject) p.pd.agent = true ∧
      p.landed (factsOf c.world.broker p.subject) =
        [⟨"participant.joined", p.pd.agent⟩, ⟨"participant.left", p.pd.from⟩] := by
  have hfacts := Privileged.transfer_facts htype
  rcases progress_of_drive hbefore hfresh h with ⟨⟨new, done, hstream, hdone, hmap, _⟩, haccepted⟩
  have hsubject : ∀ m ∈ new, m.subject = p.subject := by
    intro m hm
    rcases mem_done hmap hm with ⟨f, _, hland⟩
    exact congrArg Landing.subject hland
  have hlog := factsOf_append hstream hsubject
  have hdone' := hdone
  rw [hfacts] at hdone'
  refine ⟨?_, ?_⟩
  · intro fs hbase hfs
    rcases hbase with ⟨since, rfl⟩
    rw [hlog] at hfs
    have hsince : since = (new.take since.length).map Msg.payload := by
      rw [List.map_take]
      exact List.prefix_iff_eq_take.1 ((List.prefix_append_right_inj _).1 hfs)
    rw [hsince]
    have hpart : (new.take since.length).map landingOf = (done.take since.length).map p.landing := by
      rw [List.map_take, List.map_take, hmap]
    exact (covered_of_done hdistinct hmember
      ((List.take_prefix since.length done).trans hdone') hpart).1
  · intro th hth res hprog hacc
    have hrec := haccepted th hth res hprog hacc
    have hsub : p.facts ⊆ done := fun f hf =>
      done_of_recorded hfresh hstream hdone hmap hf (hrec f hf)
    have hall : done = p.facts := by
      have hnodup : p.facts.Nodup := p.payload_facts ▸ p.payload.facts_nodup
      exact hdone.eq_of_length (Nat.le_antisymm hdone.length_le (hnodup.subperm hsub).length_le)
    have hne : new ≠ [] := by
      rintro rfl
      simp [hall, hfacts] at hmap
    rcases recordOutline.sound (recordOutline_policy hbefore) with ⟨⟨_, hnamed⟩, _⟩
    rw [hlog]
    refine ⟨(covered_of_done hdistinct hmember hdone' hmap).2 hne, ?_⟩
    rw [Privileged.landed_append hdone hmap, Privileged.landed_nil hnamed hfresh, hall, hfacts]
    rfl

end Drive

/-! ## Runs -/

variable {p : Privileged}

theorem Privileged.redelivers_iff {q : Privileged} :
    (q.tenant = p.tenant ∧ q.iid = p.iid ∧ q.cmd.commandId = p.cmd.commandId ∧ q.facts = p.facts) ↔
      q.Redelivers p :=
  ⟨fun h => ⟨h.1, h.2.1, h.2.2.1, h.2.2.2⟩, fun h => ⟨h.tenant, h.iid, h.commandId, h.facts⟩⟩

instance (q p : Privileged) : Decidable (q.Redelivers p) :=
  decidable_of_iff _ Privileged.redelivers_iff

def Call.privileged? (call : Call) : Option Privileged :=
  match call.request with
  | .privileged p => some p
  | .refuse _ | .ordinary _ => none

theorem Call.privileged?_eq_some {call : Call} :
    call.privileged? = some p ↔ call.request = .privileged p := by
  unfold privileged?
  cases call.request <;> simp

theorem driving_spawn_iff {call : Call} :
    (∃ q ∈ call.privileged?, q.Redelivers p) ↔ (driving p).spawn call := by
  simp only [Option.mem_def, Call.privileged?_eq_some]

instance (call : Call) : Decidable ((driving p).spawn call) :=
  decidable_of_iff _ driving_spawn_iff

/-- What is to be seen of a drive: the command; whether the old agent is a participant of a started
interaction and the command is new when it starts; the replies; and who is a participant in the end. -/
structure DriveView where
  type : String
  pd : ParticipationData
  before : List String
  member : Bool
  unseen : Bool
  replies : List (Option Status)
  fromAfter : Bool
  agentAfter : Bool
  deriving DecidableEq

def replyOf (th : Thread Ans Call World CommandResult) : Option Status :=
  match th.prog with
  | .ret res => some res.status
  | .call .. => none

theorem replyOf_some {th : Thread Ans Call World CommandResult} {s : Status}
    (h : replyOf th = some s) : ∃ res, th.prog = .ret res ∧ res.status = s := by
  unfold replyOf at h
  split at h
  · next res hprog => exact ⟨res, hprog, Option.some.inj h⟩
  · cases h

def driveView (p : Privileged) (c₀ c : Config Ans Call World CommandResult) : DriveView where
  type := p.cmd.type
  pd := p.pd
  before := typesOf (factsOf c₀.world.broker p.subject)
  member := isMember (factsOf c₀.world.broker p.subject) p.pd.from
  unseen := decide (Unseen p c₀.world.broker)
  replies := c.pool.map replyOf
  fromAfter := isMember (factsOf c.world.broker p.subject) p.pd.from
  agentAfter := isMember (factsOf c.world.broker p.subject) p.pd.agent

namespace Scenario

def assignA : Schedule :=
  [.spawn (ordinary 1 backend "s" "interaction.started" [])] ++ acts 0 (write cold .go) ++
  [.spawn (privileged 1 "a" "participant.assign" "A" "")] ++ acts 1 (land warm .go)

def transferOnce (call : Call) : Schedule :=
  [.spawn call] ++ acts 0 (warm ++ [.go, .go] ++ write warm .go ++ write warm .go ++ [.go, .go])

/-- The ack of the join is lost, the state is dropped and the command refused; the retry rebuilds the
state, replays the join and appends the leave. -/
def transferTwice (call : Call) : Schedule :=
  [.spawn call] ++ acts 0 (warm ++ [.go, .go] ++ write warm .lost ++ [.go]) ++
  [.spawn call] ++
    acts 1 (cold ++ [.go, .go] ++ warm ++ [.go, .go] ++ write warm .go ++ [.go, .go])

/-- First the schedule `before`, then `after` with nothing but deliveries of the call's command. -/
def drive (call : Call) (before after : Schedule) : Option DriveView :=
  call.privileged?.bind fun p =>
    (run machine handleCommand .free before ⟨World.start, []⟩).bind fun c₀ =>
      (run machine handleCommand (driving p) after ⟨c₀.world, []⟩).map (driveView p c₀)

theorem exists_of_drive {call : Call} {before after : Schedule} {v : DriveView}
    (h : drive call before after = some v) :
    ∃ p c₀ c, Reachable machine handleCommand .free World.start c₀ ∧
      Reachable machine handleCommand (driving p) c₀.world c ∧ driveView p c₀ c = v := by
  rcases Option.bind_eq_some_iff.1 h with ⟨p, _, h⟩
  rcases Option.bind_eq_some_iff.1 h with ⟨c₀, hbefore, h⟩
  rcases exists_of_run h with ⟨c, hafter, hview⟩
  exact ⟨p, c₀, c, Reachable.start.run hbefore, hafter, hview⟩

end Scenario

open Scenario in
/-- A transfer of a participant to themselves is accepted and leaves the interaction without them. -/
theorem transfer_to_self : ∃ (p : Privileged) (c₀ c : Config Ans Call World CommandResult),
    Reachable machine handleCommand .free World.start c₀ ∧
      p.cmd.type = "participant.transfer" ∧ p.pd.from ≠ "" ∧ p.pd.agent ≠ "" ∧
      typesOf (factsOf c₀.world.broker p.subject) = ["interaction.started", "participant.joined"] ∧
      isMember (factsOf c₀.world.broker p.subject) p.pd.from = true ∧ Unseen p c₀.world.broker ∧
      Reachable machine handleCommand (driving p) c₀.world c ∧
      (∃ th ∈ c.pool, ∃ res, th.prog = .ret res ∧ res.status = .accepted) ∧
      isMember (factsOf c.world.broker p.subject) p.pd.from = false ∧
      isMember (factsOf c.world.broker p.subject) p.pd.agent = false := by
  have hdrive : drive (privileged 1 "p" "participant.transfer" "A" "A") assignA
      (transferOnce (privileged 1 "p" "participant.transfer" "A" "A")) =
        some ⟨"participant.transfer", ⟨"A", "A", "", ""⟩,
          ["interaction.started", "participant.joined"], true, true, [some .accepted], false,
          false⟩ := by
    decide +kernel
  rcases exists_of_drive hdrive with ⟨p, c₀, c, hbefore, hafter, hview⟩
  rcases DriveView.mk.inj hview with ⟨htype, hpd, htypes, hmember, hunseen, hreplies, hfrom, hagent⟩
  have hreply : some Status.accepted ∈ c.pool.map replyOf := by simp [hreplies]
  rcases List.mem_map.1 hreply with ⟨th, hth, hstatus⟩
  rcases replyOf_some hstatus with ⟨res, hprog, hres⟩
  exact ⟨p, c₀, c, hbefore, htype, by simp [hpd], by simp [hpd], htypes, hmember,
    of_decide_eq_true hunseen, hafter, ⟨th, hth, res, hprog, hres⟩, hfrom, hagent⟩

open Scenario in
theorem transfer_no_gap_lostJoin :
    ∃ (p : Privileged) (c₀ c : Config Ans Call World CommandResult),
      Reachable machine handleCommand .free World.start c₀ ∧
      Reachable machine handleCommand (driving p) c₀.world c ∧
      (∀ fs, factsOf c₀.world.broker p.subject <+: fs → fs <+: factsOf c.world.broker p.subject →
        isMember fs p.pd.from = true ∨ isMember fs p.pd.agent = true) ∧
      isMember (factsOf c.world.broker p.subject) p.pd.agent = true ∧
      p.landed (factsOf c.world.broker p.subject) =
        [⟨"participant.joined", p.pd.agent⟩, ⟨"participant.left", p.pd.from⟩] := by
  have hdrive : drive (privileged 1 "p" "participant.transfer" "B" "A") assignA
      (transferTwice (privileged 1 "p" "participant.transfer" "B" "A")) =
        some ⟨"participant.transfer", ⟨"B", "A", "", ""⟩,
          ["interaction.started", "participant.joined"], true, true,
          [some .rejected, some .accepted], false, true⟩ := by
    decide +kernel
  rcases exists_of_drive hdrive with ⟨p, c₀, c, hbefore, hafter, hview⟩
  rcases DriveView.mk.inj hview with ⟨htype, hpd, _, hmember, hunseen, hreplies, _, _⟩
  have hreply : some Status.accepted ∈ c.pool.map replyOf := by simp [hreplies]
  rcases List.mem_map.1 hreply with ⟨th, hth, hstatus⟩
  rcases replyOf_some hstatus with ⟨res, hprog, hres⟩
  rcases transfer_no_gap hbefore htype (by simp [hpd]) hmember (of_decide_eq_true hunseen) hafter
    with ⟨hgap, haccepted⟩
  exact ⟨p, c₀, c, hbefore, hafter, hgap, haccepted th hth res hprog hres⟩

end RelayPoint.Signaling
