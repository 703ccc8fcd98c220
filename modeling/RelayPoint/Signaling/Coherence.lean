import RelayPoint.Signaling.Execution

/-!
# Coherence — cached fields that belong to the prefix the token names

A cached state is used safely when the fields a decision reads were folded from exactly the prefix
that the state's token names: a successful append then proves that this prefix was still the whole
log.  `Coherence` is this argument for an arbitrary property `P` of prefix and fields and an
arbitrary property `G` of logs.  It asks what each branch of the append loops does to the fields, and
turns the answers into an `Outline`.
-/

namespace RelayPoint.Signaling

open Concurrency Journal

def namedFacts (b : LogStore) (n : Nat) : List Fact :=
  (prefixAt b.stream n).map Msg.payload

section NamedFacts

variable {b b' : LogStore} {n : Nat} {subject : String}

theorem namedFacts_mono (hb : Extends b b') (hn : n ≤ b.stream.length) :
    namedFacts b' n = namedFacts b n := by
  rcases hb with ⟨rest, hrest⟩
  rw [namedFacts, ← hrest, prefixAt_append hn]
  rfl

theorem namedFacts_lastSeq : namedFacts b (lastSeq subject b.stream) = factsOf b subject := by
  rw [namedFacts, prefixAt_lastSeq]
  rfl

theorem namedFacts_commit (m : Msg String String Fact) :
    namedFacts (b.commit m) (b.stream.length + 1) = factsOf b m.subject ++ [m.payload] := by
  have hget : (b.commit m).stream[b.stream.length]? = some m := by simp [Broker.commit]
  rw [namedFacts, prefixAt_of_getElem? hget]
  simp [Broker.commit, factsOf]

theorem namedFacts_isPrefixOf {m : Msg String String Fact} (h : b.stream[n]? = some m) :
    namedFacts b (n + 1) <+: factsOf b m.subject :=
  (prefixAt_isPrefixOf h).map _

theorem namedFacts_getLast? {m : Msg String String Fact} (h : b.stream[n]? = some m) :
    (namedFacts b (n + 1)).getLast? = some m.payload := by
  rw [namedFacts, prefixAt_of_getElem? h]
  simp

end NamedFacts

/-! ## Conditions on runs -/

section Conditions

variable (LostAck : List Fact → List Fact → Prop) (Duplicate : Event → List Fact → List Fact → Prop)

/-- `LostAck` is asked of the prefix the cached token names and the log, whenever a lost ack is
reconciled with the log.  `Duplicate` is asked of the fact, the prefix the cached token names and
the prefix that ends with the original, whenever a participation append is acked as a duplicate. -/
def StepOk (w : World) (op : Op) (ch : Choice) : Prop :=
  match op with
  | .replay (.lostAck _ st _) subject =>
    ch = .go → LostAck (namedFacts w.broker st.streamSeq) (factsOf w.broker subject)
  | .append _ subject ev dedupID expected =>
    isParticipationFact ev.eventType = true →
      ∀ n ∈ duplicateOf w subject dedupID expected ch,
        Duplicate ev (namedFacts w.broker expected) (namedFacts w.broker n)
  | _ => True

instance [∀ fs fs', Decidable (LostAck fs fs')] [∀ ev fs fs', Decidable (Duplicate ev fs fs')]
    (w : World) (op : Op) (ch : Choice) : Decidable (StepOk LostAck Duplicate w op ch) :=
  match op with
  | .replay (.lostAck _ st _) subject =>
    inferInstanceAs (Decidable (ch = .go →
      LostAck (namedFacts w.broker st.streamSeq) (factsOf w.broker subject)))
  | .append _ subject ev dedupID expected =>
    inferInstanceAs (Decidable (isParticipationFact ev.eventType = true →
      ∀ n ∈ duplicateOf w subject dedupID expected ch,
        Duplicate ev (namedFacts w.broker expected) (namedFacts w.broker n)))
  | .replay .load _ | .replay (.refold ..) _ | .replay (.refoldFact ..) _
  | .replay (.duplicate ..) _ | .now | .newID | .interGet .. | .interPut .. | .interDelete ..
  | .loadJoin .. | .loadWait _ | .loadDone .. | .lock .. | .unlock .. => .isTrue trivial

abbrev appendPolicy : Policy Op Call World Choice Tick where
  spawn _ := True
  op _ w op ch := StepOk LostAck Duplicate w op ch
  tick _ _ := True

variable {LostAck Duplicate}

theorem appendPolicy_mono {LostAck' : List Fact → List Fact → Prop}
    {Duplicate' : Event → List Fact → List Fact → Prop}
    (hlost : ∀ named fs, LostAck named fs → LostAck' named fs)
    (hdup : ∀ ev named upTo, Duplicate ev named upTo → Duplicate' ev named upTo)
    {c : Config Ans Call World CommandResult}
    (h : Reachable machine handleCommand (appendPolicy LostAck Duplicate) World.start c) :
    Reachable machine handleCommand (appendPolicy LostAck' Duplicate') World.start c := by
  refine Reachable.mono (fun _ _ => trivial) ?_ (fun _ _ _ => trivial) h
  intro _ w op ch hop
  cases op with
  | append author subject ev dedupID expected =>
    intro hfact n hn
    exact hdup _ _ _ (hop hfact n hn)
  | replay site subject =>
    cases site with
    | lostAck max st c =>
      intro hch
      exact hlost _ _ (hop hch)
    | _ => trivial
  | _ => trivial

end Conditions

/-! ## The obligations -/

structure Coherence where
  LostAck : List Fact → List Fact → Prop
  Duplicate : Event → List Fact → List Fact → Prop
  G : List Fact → Prop
  P : List Fact → Core → Prop
  nil : G []
  rebuilt : ∀ {fs}, G fs → P fs (InteractionState.coreOf (fs.map Fact.event))
  commit : ∀ {c : Ordinary} {st : InteractionState} {fs} eventId at_, G fs → P fs st.core →
    (c.gateParticipation = true → st.part.isParticipantNow c.suffix = true) →
    legalTransition st.status c.cmd.type = true →
    G (fs ++ [(c.message st eventId at_).payload]) ∧
      P (fs ++ [(c.message st eventId at_).payload])
        ⟨st.seq + 1, transition st.status c.cmd.type, st.part⟩
  commitFact : ∀ {p : Privileged} {f : PlannedFact} {st : InteractionState} {fs} eventId at_,
    isParticipationFact f.eventType = true → G fs → P fs st.core →
    legalTransition st.status f.eventType = true →
    G (fs ++ [(p.message f st eventId at_).payload]) ∧
      P (fs ++ [(p.message f st eventId at_).payload])
        ⟨st.seq + 1, transition st.status f.eventType, st.part.applyFact (p.factEvent f st eventId at_)⟩
  lostAck : ∀ {st : InteractionState} {named fs}, G fs → P named st.core → LostAck named fs →
    P fs ⟨(InteractionState.coreOf (fs.map Fact.event)).seq,
      (InteractionState.coreOf (fs.map Fact.event)).status, st.part⟩
  duplicate : ∀ {p : Privileged} {f : PlannedFact} {st : InteractionState}
    {named upTo fs} eventId at_, isParticipationFact f.eventType = true → G fs →
    P named st.core → legalTransition st.status f.eventType = true → upTo <+: fs →
    upTo ≠ [] → Duplicate (p.factEvent f st eventId at_) named upTo →
    P upTo
      ⟨st.seq + 1, transition st.status f.eventType, st.part.applyFact (p.factEvent f st eventId at_)⟩

namespace Coherence

variable (K : Coherence)

def Coherent (b : LogStore) (st : InteractionState) : Prop :=
  st.streamSeq ≤ b.stream.length ∧ K.P (namedFacts b st.streamSeq) st.core

variable {K} {b b' : LogStore} {st st' : InteractionState}

theorem Coherent.mono (hb : Extends b b') (h : K.Coherent b st) : K.Coherent b' st := by
  refine ⟨h.1.trans hb.length_le, ?_⟩
  rw [namedFacts_mono hb h.1]
  exact h.2

theorem Coherent.congr (h : K.Coherent b st) (hcore : st'.core = st.core)
    (hseq : st'.streamSeq = st.streamSeq) : K.Coherent b st' := by
  unfold Coherent
  rw [hcore, hseq]
  exact h

theorem built_core (b : LogStore) (subject : String) (max : Nat) :
    (built b subject max).core =
      InteractionState.coreOf ((factsOf b subject).map Fact.event) :=
  InteractionState.rebuildFrom_core

theorem built_streamSeq (b : LogStore) (subject : String) (max : Nat) :
    (built b subject max).streamSeq = lastSeq subject b.stream :=
  InteractionState.rebuildFrom_streamSeq

theorem coherent_built {subject : String} {max : Nat} (hg : ∀ subject, K.G (factsOf b subject)) :
    K.Coherent b (built b subject max) := by
  unfold Coherent
  rw [built_streamSeq, built_core, namedFacts_lastSeq]
  exact ⟨lastSeq_le_length, K.rebuilt (hg subject)⟩

theorem Coherent.whole (h : K.Coherent b st) {subject : String}
    (hlast : lastSeq subject b.stream = st.streamSeq) : K.P (factsOf b subject) st.core := by
  rw [← namedFacts_lastSeq, hlast]
  exact h.2

theorem good_commit {m : Msg String String Fact} (hg : ∀ subject, K.G (factsOf b subject))
    (hm : K.G (factsOf b m.subject ++ [m.payload])) :
    ∀ subject, K.G (factsOf (b.commit m) subject) := by
  intro subject
  by_cases hs : m.subject = subject
  · rw [← hs, factsOf_commit_self]
    exact hm
  · rw [factsOf_commit_other hs]
    exact hg subject

/-! ## The outline -/

section Branches

variable {w : World} {c : Ordinary} {p : Privileged} {f : PlannedFact} {max n : Nat}

theorem coherent_commit (eventId : String) (at_ : Nat) (hg : ∀ subject, K.G (factsOf b subject))
    (h : K.Coherent b st) (hpre : c.precheck max st = none)
    (hlast : lastSeq c.subject b.stream = st.streamSeq) :
    (∀ subject, K.G (factsOf (b.commit (c.message st eventId at_)) subject)) ∧
      K.Coherent (b.commit (c.message st eventId at_)) (c.onCommit max st (b.stream.length + 1)) := by
  rcases Ordinary.precheck_none hpre with ⟨hgate, hlegal⟩
  rcases K.commit eventId at_ (hg c.subject) (h.whole hlast) hgate hlegal with ⟨hg', hp'⟩
  refine ⟨good_commit hg hg', ?_, ?_⟩
  · simp [Ordinary.onCommit, Broker.commit]
  · change K.P (namedFacts (b.commit (c.message st eventId at_)) (b.stream.length + 1)) _
    rw [namedFacts_commit]
    exact hp'

theorem coherent_commitFact (eventId : String) (at_ : Nat)
    (hfact : isParticipationFact f.eventType = true) (hg : ∀ subject, K.G (factsOf b subject))
    (h : K.Coherent b st) (hcheck : p.checkFact f st = none)
    (hlast : lastSeq p.subject b.stream = st.streamSeq) :
    (∀ subject, K.G (factsOf (b.commit (p.message f st eventId at_)) subject)) ∧
      K.Coherent (b.commit (p.message f st eventId at_))
        (p.onAck max f st (p.factEvent f st eventId at_) (b.stream.length + 1)) := by
  have hlegal := Privileged.checkFact_none hcheck
  rcases K.commitFact eventId at_ hfact (hg p.subject) (h.whole hlast) hlegal with ⟨hg', hp'⟩
  refine ⟨good_commit hg hg', ?_, ?_⟩
  · simp [Privileged.onAck, Broker.commit]
  · change K.P (namedFacts (b.commit (p.message f st eventId at_)) (b.stream.length + 1)) _
    rw [namedFacts_commit]
    exact hp'

theorem coherent_lostAck {subject : String} (hg : ∀ subject, K.G (factsOf b subject))
    (h : K.Coherent b st) (hok : K.LostAck (namedFacts b st.streamSeq) (factsOf b subject)) :
    K.Coherent b (st.onLostAck (built b subject max)) := by
  have hseq : (st.onLostAck (built b subject max)).streamSeq = lastSeq subject b.stream :=
    built_streamSeq b subject max
  have hcore : (st.onLostAck (built b subject max)).core =
      ⟨(built b subject max).core.seq, (built b subject max).core.status, st.part⟩ := rfl
  unfold Coherent
  rw [hseq, hcore, built_core, namedFacts_lastSeq]
  exact ⟨lastSeq_le_length, K.lostAck (hg subject) h.2 hok⟩

theorem coherent_duplicateFact (eventId : String) (at_ : Nat) (hs : Sound b)
    (hfact : isParticipationFact f.eventType = true) (hg : ∀ subject, K.G (factsOf b subject))
    (h : K.Coherent b st) (hcheck : p.checkFact f st = none)
    (hn : b.window.lookup (p.dedupID f) = some n)
    (hok : K.Duplicate (p.factEvent f st eventId at_) (namedFacts b st.streamSeq)
      (namedFacts b n)) : K.Coherent b (p.onAck max f st (p.factEvent f st eventId at_) n) := by
  rcases hs.original p.tenant_dotFree p.iid_dotFree hn with ⟨m, hpos, hget, hsub, _⟩
  have hsucc : n - 1 + 1 = n := Nat.sub_add_cancel hpos
  have hlt : n - 1 < b.stream.length := (List.getElem?_eq_some_iff.1 hget).1
  have hupTo : namedFacts b n <+: factsOf b p.subject := by
    have := namedFacts_isPrefixOf hget
    rwa [hsucc, hsub] at this
  have hne : namedFacts b n ≠ [] := by
    have := namedFacts_getLast? hget
    rw [hsucc] at this
    intro hnil
    rw [hnil] at this
    cases this
  refine ⟨?_, ?_⟩
  · change n ≤ b.stream.length
    omega
  · exact K.duplicate eventId at_ hfact (hg p.subject) h.2 (Privileged.checkFact_none hcheck) hupTo
      hne hok

end Branches

def outline (K : Coherence) : Outline where
  okOrdinary _ := True
  okPrivileged _ := True
  ok _ w op ch := StepOk K.LostAck K.Duplicate w op ch
  mayForget := True
  Inv b := ∀ subject, K.G (factsOf b subject)
  Obj b _ st := K.Coherent b st
  Ready _ b _ st := K.Coherent b st
  Replied _ _ _ _ := True
  Cleared _ _ _ _ := True
  FactReady _ b _ _ f st := isParticipationFact f.eventType = true ∧ K.Coherent b st
  Settled _ _ _ _ := True
  mono := {
    obj := Coherent.mono
    ready := Coherent.mono
    replied := fun _ _ => trivial
    cleared := fun _ _ => trivial
    factReady := fun hb h => ⟨h.1, h.2.mono hb⟩
    settled := fun _ _ => trivial }
  inv_empty := fun _ => K.nil
  inv_forget := fun _ _ h => h
  obj_built := fun _ _ _ hg => coherent_built hg
  obj_poison := fun h => h.congr rfl rfl
  ready := fun _ _ _ _ _ _ h _ => h
  obj_of_ready := fun h => h
  precheck := fun _ _ h hpre =>
    have hst := Ordinary.precheck_state hpre
    ⟨trivial, h.congr hst.1 hst.2⟩
  commit := fun eventId at_ _ hg h hpre _ hlast =>
    have hnew := coherent_commit eventId at_ hg h hpre hlast
    ⟨hnew.1, hnew.2, trivial⟩
  refold := fun _ hg _ _ _ => (coherent_built hg).congr rfl rfl
  retried := fun _ => trivial
  lostAck := fun _ hg h hok _ => ⟨trivial, coherent_lostAck hg h (hok rfl)⟩
  duplicate := fun _ hg _ _ _ _ =>
    have hst := Ordinary.onDuplicate_state _ _ _ _
    ⟨trivial, (coherent_built hg).congr hst.1 hst.2⟩
  unreadable := fun _ _ _ _ _ => trivial
  refused := fun _ => trivial
  cleared := fun _ _ _ _ _ _ _ _ => trivial
  factReady := fun _ hfacts _ _ _ h _ =>
    ⟨Privileged.isParticipationFact (by rw [hfacts]; simp), h⟩
  obj_of_factReady := fun h => h.2
  replayed := fun _ _ _ _ _ => trivial
  commitFact := fun eventId at_ _ _ _ hg h hcheck _ hlast _ =>
    have hnew := coherent_commitFact eventId at_ h.1 hg h.2 hcheck hlast
    ⟨hnew.1, hnew.2, trivial⟩
  duplicateFact := fun eventId at_ _ hs hg h hcheck hn hok =>
    ⟨coherent_duplicateFact eventId at_ hs h.1 hg h.2 hcheck (Outline.lookup_of_duplicateOf hn)
      (hok h.1 _ hn), trivial⟩
  refoldFact := fun _ hg h _ => ⟨h.1, (coherent_built hg).congr rfl rfl⟩
  bound := fun _ _ _ h => h.congr rfl rfl
  settled := fun _ _ _ => trivial

theorem logs (K : Coherence) {c : Config Ans Call World CommandResult}
    (h : Reachable machine handleCommand (appendPolicy K.LostAck K.Duplicate) World.start c)
    (subject : String) : K.G (factsOf c.world.broker subject) := by
  have hreach : Reachable machine handleCommand K.outline.policy World.start c := by
    refine Reachable.mono ?_ ?_ ?_ h
    · intro call _
      exact call.meets_trivial
    · intro _ w op ch hop
      exact hop
    · intro w t _
      cases t with
      | _ => trivial
  exact (K.outline.sound hreach).1.2 subject

end Coherence

end RelayPoint.Signaling
