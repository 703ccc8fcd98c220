import RelayPoint.Signaling.Coherence

/-!
# LogLaws — what the interaction logs written by a fleet of routers look like

Three laws of the log: its facts are numbered densely, its types run through the lifecycle, and its
authors are members when they write.  Each is an instance of `Coherence` with its own pair of
property and cached field, and each comes with the runs in which the code breaks it: an append that
is acked as a duplicate, or whose ack is lost, moves the token of a cached state without moving every
field along.
-/

namespace RelayPoint.Signaling

open Concurrency Journal

/-! ## Calls and schedules for concrete runs -/

namespace Scenario

def router (id : Nat) : Router where
  id := id
  devMode := false
  maxResults := 8
  maxRefold := 2

def backend : Identity := ⟨"t", "desk", roleTrustedBackend, ""⟩

def agent (name : String) : Identity := ⟨"t", name, "agent", capabilityAgentFeed⟩

def ordinary (r : Nat) (id : Identity) (commandId type : String) (data : List UInt8) : Call where
  router := router r
  id := id
  subject := "tenant.t.interaction.i.cmd." ++ id.userId
  data := some ⟨commandId, "t", id.userId, type, "", "", data⟩
  json := none

def privileged (r : Nat) (commandId type agent from_ : String) : Call where
  router := router r
  id := backend
  subject := "tenant.t.interaction.i.cmd.desk"
  data := some ⟨commandId, "t", "desk", type, "", "", [0]⟩
  json := some ⟨agent, from_, "", ""⟩

abbrev Schedule :=
  List (Label Call Choice Tick)

def acts (i : Nat) (choices : List Choice) : Schedule :=
  choices.map (.act i)

/-- `getState` of a router that has to rebuild: cache miss, lead the flight, miss again, replay,
store, land. -/
def cold : List Choice := List.replicate 6 .go

def warm : List Choice := [.go]

def offer (ch : Choice) : List Choice := [.name "e", .time 0, ch]

def write (load : List Choice) (ch : Choice) : List Choice :=
  load ++ [.go] ++ offer ch ++ [.go]

/-- A privileged command with one fact on a router that looks the state up with `load`: check the
binding, append the fact, record the binding. -/
def land (load : List Choice) (ch : Choice) : List Choice :=
  load ++ [.go, .go] ++ write warm ch ++ [.go, .go]

def log : String := logSubjectFor "t" "i"

end Scenario

/-! ## Dense sequences -/

def Dense (fs : List Fact) : Prop :=
  fs.map (fun f => f.event.sequence) = (List.range fs.length).map fun i : Nat => (i : Int) + 1

variable {fs named : List Fact} {f : Fact}

theorem dense_concat (h : Dense fs) (hf : f.event.sequence = fs.length + 1) :
    Dense (fs ++ [f]) := by
  unfold Dense at h ⊢
  simp only [List.map_append, List.length_append, List.map_cons, List.map_nil, List.length_cons,
    List.length_nil, List.range_succ]
  rw [h, hf]

theorem Dense.of_concat (h : Dense (fs ++ [f])) : Dense fs ∧ f.event.sequence = fs.length + 1 := by
  unfold Dense at h
  simp only [List.map_append, List.length_append, List.length_cons,
    List.length_nil, List.range_succ] at h
  have hparts := List.append_inj h (by simp)
  exact ⟨hparts.1, by simpa using hparts.2⟩

theorem Dense.lastSequence (h : Dense fs) :
    InteractionState.lastSequence (fs.map Fact.event) = fs.length := by
  induction fs using List.reverseRecOn with
  | nil => rfl
  | append_singleton fs f ih =>
    rcases h.of_concat with ⟨hfs, hf⟩
    simp only [List.map_append, List.map_cons, List.map_nil]
    rw [InteractionState.lastSequence_concat, ih hfs, hf]
    simp

def anyLostAck (_ _ : List Fact) : Prop :=
  True
  deriving Decidable

def nextFact (_ : Event) (named upTo : List Fact) : Prop :=
  ∃ original, upTo = named ++ [original]

def sequencing : Coherence where
  LostAck := anyLostAck
  Duplicate := nextFact
  G := Dense
  P fs core := core.seq = fs.length
  nil := rfl
  rebuilt := fun h => h.lastSequence
  commit := by
    intro c st fs eventId at_ hg hseq _ _
    have hseq : st.seq = fs.length := hseq
    refine ⟨dense_concat hg ?_, ?_⟩
    · simp [Ordinary.message, Ordinary.event, hseq]
    · simp [hseq]
  commitFact := by
    intro p f st fs eventId at_ _ hg hseq _
    have hseq : st.seq = fs.length := hseq
    refine ⟨dense_concat hg ?_, ?_⟩
    · simp [Privileged.message, Privileged.factEvent, hseq]
    · simp [hseq]
  lostAck := fun hg _ _ => hg.lastSequence
  duplicate := by
    rintro p f st named upTo fs eventId at_ _ _ hseq _ _ _ ⟨original, rfl⟩
    have hseq : st.seq = named.length := hseq
    simp [hseq]

/-- In every run in which each participation append that is acked as a duplicate repeats the fact
right after the cached token, the sequences of every interaction's log are dense. -/
theorem log_sequence_dense {c : Config Ans Call World CommandResult}
    (h : Reachable machine handleCommand (appendPolicy anyLostAck nextFact) World.start c)
    (tenant iid : String) : Dense (factsOf c.world.broker (logSubjectFor tenant iid)) :=
  sequencing.logs h _

namespace Scenario

/-- The backend starts the interaction on router 1; router 2 lands two joins; router 1, whose cached
token is behind both, repeats the second join and gets a duplicate ack, then writes a message. -/
def repeatedJoin : Schedule :=
  [.spawn (ordinary 1 backend "s" "interaction.started" [])] ++ acts 0 (write cold .go) ++
  [.spawn (privileged 2 "p" "participant.assign" "A" "")] ++ acts 1 (land cold .go) ++
  [.spawn (privileged 2 "q" "participant.assign" "B" "")] ++ acts 2 (land warm .go) ++
  [.spawn (privileged 1 "q" "participant.assign" "B" "")] ++ acts 3 (land warm .dedupFirst) ++
  [.spawn (ordinary 1 backend "m" "message" [])] ++ acts 4 (write warm .go)

def joinTwice : Schedule :=
  [.spawn (ordinary 1 backend "s" "interaction.started" [])] ++ acts 0 (write cold .go) ++
  [.spawn (privileged 2 "p" "participant.assign" "A" "")] ++ acts 1 (land cold .go) ++
  [.spawn (privileged 1 "p" "participant.assign" "A" "")] ++ acts 2 (land warm .dedupFirst) ++
  [.spawn (ordinary 1 backend "m" "message" [])] ++ acts 3 (write warm .go)

end Scenario

open Scenario in
/-- Without the condition a sequence is repeated. -/
theorem log_sequence_repeats : ∃ c : Config Ans Call World CommandResult,
    Reachable machine handleCommand Policy.free World.start c ∧
      ¬ Dense (factsOf c.world.broker (logSubjectFor "t" "i")) := by
  have hrun : (run machine handleCommand Policy.free repeatedJoin ⟨World.start, []⟩).map
      (fun c => (factsOf c.world.broker (logSubjectFor "t" "i")).map fun f => f.event.sequence) =
        some [1, 2, 3, 3] := by
    decide +kernel
  rcases exists_of_run hrun with ⟨c, hc, hseq⟩
  refine ⟨c, hc, ?_⟩
  intro hdense
  have hlen := congrArg List.length hseq
  rw [List.length_map] at hlen
  unfold Dense at hdense
  rw [hseq, hlen] at hdense
  revert hdense
  decide

instance (ev : Event) (named upTo : List Fact) : Decidable (nextFact ev named upTo) :=
  decidable_of_iff (upTo ≠ [] ∧ upTo.dropLast = named) (by
    constructor
    · rintro ⟨hne, rfl⟩
      exact ⟨upTo.getLast hne, (List.dropLast_append_getLast hne).symm⟩
    · rintro ⟨original, rfl⟩
      simp)

open Scenario in
theorem log_sequence_dense_joinTwice : ∃ c : Config Ans Call World CommandResult,
    Reachable machine handleCommand (appendPolicy anyLostAck nextFact) World.start c ∧
      (factsOf c.world.broker (logSubjectFor "t" "i")).length = 3 ∧
      Dense (factsOf c.world.broker (logSubjectFor "t" "i")) := by
  have hrun : (run machine handleCommand (appendPolicy anyLostAck nextFact) joinTwice
      ⟨World.start, []⟩).map (fun c => (factsOf c.world.broker (logSubjectFor "t" "i")).length) =
        some 3 := by
    decide +kernel
  rcases exists_of_run hrun with ⟨c, hc, hlen⟩
  exact ⟨c, hc, hlen, log_sequence_dense hc "t" "i"⟩

/-! ## Lifecycle -/

def typesOf (fs : List Fact) : List String :=
  fs.map fun f => f.event.eventType

def IsMiddle (type : String) : Prop :=
  type ≠ "interaction.started" ∧ type ≠ "interaction.ended"

/-- Empty, or a start, then facts that are neither start nor end, then at most one end. -/
def Staged (types : List String) : Prop :=
  types = [] ∨ ∃ middle, (∀ t ∈ middle, IsMiddle t) ∧
    (types = "interaction.started" :: middle ∨
      types = "interaction.started" :: (middle ++ ["interaction.ended"]))

theorem statusOf_eq_foldl (fs : List Fact) :
    InteractionState.statusOf (fs.map Fact.event) = (typesOf fs).foldl transition .none := by
  simp [InteractionState.statusOf, typesOf, List.foldl_map]

theorem foldl_transition_middle {status : Lifecycle} {middle : List String}
    (h : ∀ t ∈ middle, IsMiddle t) : middle.foldl transition status = status := by
  induction middle with
  | nil => rfl
  | cons t middle ih =>
    have ht : IsMiddle t := h t (by simp)
    have hrest : ∀ t' ∈ middle, IsMiddle t' := fun t' ht' => h t' (by simp [ht'])
    simpa [transition, ht.1, ht.2] using ih hrest

theorem staged_concat {types : List String} {t : String} (h : Staged types)
    (hlegal : legalTransition (types.foldl transition .none) t = true) : Staged (types ++ [t]) := by
  rcases h with rfl | ⟨middle, hmid, rfl | rfl⟩
  · have ht : t = "interaction.started" := by
      by_contra hne
      simp [legalTransition, hne] at hlegal
    exact .inr ⟨[], by simp, .inl (by simp [ht])⟩
  · have hstatus : ("interaction.started" :: middle).foldl transition .none = .started := by
      exact foldl_transition_middle hmid
    rw [hstatus] at hlegal
    have hstart : t ≠ "interaction.started" := by
      intro ht
      simp [legalTransition, ht] at hlegal
    by_cases hend : t = "interaction.ended"
    · exact .inr ⟨middle, hmid, .inr (by simp [hend])⟩
    · refine .inr ⟨middle ++ [t], ?_, .inl (by simp)⟩
      intro t' ht'
      rcases List.mem_append.1 ht' with ht' | ht'
      · exact hmid t' ht'
      · have : t' = t := by simpa using ht'
        rw [this]
        exact ⟨hstart, hend⟩
  · have hstatus : ("interaction.started" :: (middle ++ ["interaction.ended"])).foldl transition
        .none = .ended := by
      simp [transition]
    rw [hstatus] at hlegal
    simp [legalTransition] at hlegal

theorem Staged.status_of_isPrefixOf {types upTo : List String} (h : Staged types)
    (hpre : upTo <+: types) (hne : upTo ≠ []) (hlast : ∀ t ∈ upTo.getLast?, t ≠ "interaction.ended")
    : upTo.foldl transition .none = .started := by
  -- An open prefix is a start followed by a prefix of the middle.
  have opened : ∀ {middle rest : List String}, (∀ t ∈ middle, IsMiddle t) → rest <+: middle →
      ("interaction.started" :: rest).foldl transition .none = .started := by
    intro middle rest hmid hrest
    exact foldl_transition_middle fun t ht => hmid t (hrest.subset ht)
  cases upTo with
  | nil => exact absurd rfl hne
  | cons first rest =>
    rcases h with rfl | ⟨middle, hmid, rfl | rfl⟩
    · simp at hpre
    · rcases List.cons_prefix_cons.1 hpre with ⟨rfl, hrest⟩
      exact opened hmid hrest
    · rcases List.cons_prefix_cons.1 hpre with ⟨rfl, hrest⟩
      rcases List.prefix_concat_iff.1 hrest with rfl | hrest
      · exact absurd rfl (hlast "interaction.ended" (by simp [List.getLast?_cons]))
      · exact opened hmid hrest

def notEnded (_ : Event) (_ upTo : List Fact) : Prop :=
  ∀ original ∈ upTo.getLast?, original.event.eventType ≠ "interaction.ended"
  deriving Decidable

def staging : Coherence where
  LostAck := anyLostAck
  Duplicate := notEnded
  G fs := Staged (typesOf fs)
  P fs core := core.status = (typesOf fs).foldl transition .none
  nil := .inl rfl
  rebuilt := fun {fs} _ => statusOf_eq_foldl fs
  commit := by
    intro c st fs eventId at_ hg hstatus _ hlegal
    have hstatus : st.status = (typesOf fs).foldl transition .none := hstatus
    rw [hstatus] at hlegal
    refine ⟨?_, ?_⟩
    · simpa [typesOf, Ordinary.message, Ordinary.event] using staged_concat hg hlegal
    · simp [typesOf, Ordinary.message, Ordinary.event, List.foldl_append, hstatus]
  commitFact := by
    intro p f st fs eventId at_ _ hg hstatus hlegal
    have hstatus : st.status = (typesOf fs).foldl transition .none := hstatus
    rw [hstatus] at hlegal
    refine ⟨?_, ?_⟩
    · simpa [typesOf, Privileged.message, Privileged.factEvent] using staged_concat hg hlegal
    · simp [typesOf, Privileged.message, Privileged.factEvent, List.foldl_append, hstatus]
  lostAck := fun {_ _ fs} _ _ _ => statusOf_eq_foldl fs
  duplicate := by
    intro p f st named upTo fs eventId at_ hfact hg _ hlegal hpre hne hdup
    have hmid : IsMiddle f.eventType := by
      constructor
      all_goals
        intro heq
        simp [isParticipationFact, heq] at hfact
    have hst : st.status = .started := by
      simpa [legalTransition, hmid.1, hmid.2] using hlegal
    have hopen : (typesOf upTo).foldl transition .none = .started := by
      refine hg.status_of_isPrefixOf (hpre.map _) (by simpa [typesOf] using hne) ?_
      intro t ht
      rcases Option.map_eq_some_iff.1 ((List.getLast?_map ..).symm.trans ht) with ⟨o, ho, rfl⟩
      exact hdup o ho
    simp [hopen, hst, transition, hmid.1, hmid.2]

/-- In every run in which no participation append is acked as a duplicate of an
`interaction.ended` fact, every log runs through the lifecycle. -/
theorem log_lifecycle_staged {c : Config Ans Call World CommandResult}
    (h : Reachable machine handleCommand (appendPolicy anyLostAck notEnded) World.start c)
    (tenant iid : String) : Staged (typesOf (factsOf c.world.broker (logSubjectFor tenant iid))) :=
  staging.logs h _

namespace Scenario

/-- Router 2 ends the interaction with a command whose id reads like a sub-fact of the privileged
command `p`; router 1, still before the end, lands `p`, gets a duplicate ack that points to the end,
and goes on writing. -/
def endedByNamesake : Schedule :=
  [.spawn (ordinary 1 backend "s" "interaction.started" [])] ++ acts 0 (write cold .go) ++
  [.spawn (ordinary 2 backend "p:participant.joined:A" "interaction.ended" [])] ++
    acts 1 (cold ++ [.go] ++ offer .go ++ [.go, .go]) ++
  [.spawn (privileged 1 "p" "participant.assign" "A" "")] ++ acts 2 (land warm .dedupFirst) ++
  [.spawn (ordinary 1 backend "m" "message" [])] ++ acts 3 (write warm .go)

def joinTwiceThenEnd : Schedule :=
  [.spawn (ordinary 1 backend "s" "interaction.started" [])] ++ acts 0 (write cold .go) ++
  [.spawn (privileged 2 "p" "participant.assign" "A" "")] ++ acts 1 (land cold .go) ++
  [.spawn (privileged 1 "p" "participant.assign" "A" "")] ++ acts 2 (land warm .dedupFirst) ++
  [.spawn (ordinary 1 backend "e" "interaction.ended" [])] ++ acts 3 (write warm .go ++ [.go])

end Scenario

open Scenario in
/-- Without the condition a fact is committed after the end. -/
theorem log_lifecycle_reopened : ∃ c : Config Ans Call World CommandResult,
    Reachable machine handleCommand Policy.free World.start c ∧
      ¬ Staged (typesOf (factsOf c.world.broker (logSubjectFor "t" "i"))) := by
  have hrun : (run machine handleCommand Policy.free endedByNamesake ⟨World.start, []⟩).map
      (fun c => typesOf (factsOf c.world.broker (logSubjectFor "t" "i"))) =
        some ["interaction.started", "interaction.ended", "message"] := by
    decide +kernel
  rcases exists_of_run hrun with ⟨c, hc, htypes⟩
  refine ⟨c, hc, ?_⟩
  rw [htypes]
  rintro (hnil | ⟨middle, hmid, heq | heq⟩)
  · cases hnil
  · cases heq
    exact (hmid "interaction.ended" (by simp)).2 rfl
  · have hlast := congrArg List.getLast? heq
    simp [List.getLast?_cons] at hlast

open Scenario in
theorem log_lifecycle_staged_joinTwiceThenEnd : ∃ c : Config Ans Call World CommandResult,
    Reachable machine handleCommand (appendPolicy anyLostAck notEnded) World.start c ∧
      typesOf (factsOf c.world.broker (logSubjectFor "t" "i")) =
        ["interaction.started", "participant.joined", "interaction.ended"] ∧
      Staged (typesOf (factsOf c.world.broker (logSubjectFor "t" "i"))) := by
  have hrun : (run machine handleCommand (appendPolicy anyLostAck notEnded) joinTwiceThenEnd
      ⟨World.start, []⟩).map (fun c => typesOf (factsOf c.world.broker (logSubjectFor "t" "i"))) =
        some ["interaction.started", "participant.joined", "interaction.ended"] := by
    decide +kernel
  rcases exists_of_run hrun with ⟨c, hc, htypes⟩
  exact ⟨c, hc, htypes, log_lifecycle_staged hc "t" "i"⟩

/-! ## Membership -/

def isMember (fs : List Fact) (agent : String) : Bool :=
  (ParticipationView.fold (fs.map Fact.event)).isParticipantNow agent

theorem isMember_concat (fs : List Fact) (f : Fact) (agent : String) :
    isMember (fs ++ [f]) agent = ParticipationView.nowAfter f.event agent (isMember fs agent) := by
  simp only [isMember, List.map_append, List.map_cons, List.map_nil]
  rw [ParticipationView.fold_concat, ParticipationView.isParticipantNow_applyFact]

def Fact.Gated (f : Fact) : Prop :=
  isAuthenticated f.author.ctx = true ∧ f.author.ctx.role ≠ roleTrustedBackend ∧
    f.event.eventType ≠ "interaction.started"
  deriving Decidable

def AuthoredByMembers (fs : List Fact) : Prop :=
  ∀ before f after, fs = before ++ f :: after → f.Gated → isMember before f.event.actorId = true

theorem authoredByMembers_concat (h : AuthoredByMembers fs)
    (hf : f.Gated → isMember fs f.event.actorId = true) : AuthoredByMembers (fs ++ [f]) := by
  intro before g after heq hg
  rcases List.eq_nil_or_concat after with rfl | ⟨after', last, rfl⟩
  · have hparts : fs = before ∧ f = g := by simpa using List.append_inj' heq rfl
    rw [← hparts.1, ← hparts.2]
    exact hf (by rw [hparts.2]; exact hg)
  · have hparts : fs = before ++ g :: after' ∧ f = last := by
      have heq' : fs ++ [f] = (before ++ g :: after') ++ [last] := by simpa using heq
      simpa using List.append_inj' heq' rfl
    exact h before g after' hparts.1 hg

def nobodyLeft (named fs : List Fact) : Prop :=
  ∀ agent, isMember named agent = true → isMember fs agent = true

/-- Whoever is a member after the fact on top of the cached token is one after the original. -/
def coveredByOriginal (ev : Event) (named upTo : List Fact) : Prop :=
  ∀ agent, ParticipationView.nowAfter ev agent (isMember named agent) = true →
    isMember upTo agent = true

theorem nowAfter_mono {ev : Event} {agent : String} {x y : Bool} (hxy : x = true → y = true)
    (h : ParticipationView.nowAfter ev agent x = true) :
    ParticipationView.nowAfter ev agent y = true := by
  unfold ParticipationView.nowAfter at h ⊢
  split
  · split
    · rfl
    · simp_all
  · split
    · split
      · simp_all
      · simp_all
    · simp_all

/-- Whoever the cached view calls a participant is one after the prefix the cached token names. -/
def membership : Coherence where
  LostAck := nobodyLeft
  Duplicate := coveredByOriginal
  G := AuthoredByMembers
  P fs core := ∀ agent, core.part.isParticipantNow agent = true → isMember fs agent = true
  nil := by
    intro before f after heq
    simp at heq
  rebuilt := fun _ _ h => h
  commit := by
    intro c st fs eventId at_ hg hpart hgate _
    refine ⟨authoredByMembers_concat hg ?_, ?_⟩
    · rintro ⟨hauth, hrole, htype⟩
      have hgated : c.gateParticipation = true := by
        simpa [Ordinary.gateParticipation] using ⟨⟨hauth, hrole⟩, htype⟩
      have hactor : c.cmd.actorId = c.suffix := c.author hrole
      have hmember := hpart c.suffix (hgate hgated)
      simpa [Ordinary.message, Ordinary.event, hactor] using hmember
    · intro agent hagent
      rw [isMember_concat]
      have hskip := ParticipationView.nowAfter_of_not_participation
        (show isParticipationFact (c.message st eventId at_).payload.event.eventType = false from
          c.not_fact) agent (isMember fs agent)
      rw [hskip]
      exact hpart agent hagent
  commitFact := by
    intro p f st fs eventId at_ _ hg hpart _
    refine ⟨authoredByMembers_concat hg ?_, ?_⟩
    · rintro ⟨_, hrole, _⟩
      exact absurd p.trusted hrole
    · intro agent hagent
      rw [isMember_concat]
      have hagent : ((st.part.applyFact (p.factEvent f st eventId at_)).isParticipantNow agent) =
        true := hagent
      rw [ParticipationView.isParticipantNow_applyFact] at hagent
      exact nowAfter_mono (hpart agent) hagent
  lostAck := fun _ hpart hleft agent hagent => hleft agent (hpart agent hagent)
  duplicate := by
    intro p f st named upTo fs eventId at_ _ _ hpart _ _ _ hcov agent hagent
    have hagent : ((st.part.applyFact (p.factEvent f st eventId at_)).isParticipantNow agent) =
      true := hagent
    rw [ParticipationView.isParticipantNow_applyFact] at hagent
    exact hcov agent (nowAfter_mono (hpart agent) hagent)

/-- In every run in which no member leaves between the cached token and the reconciliation of a lost
ack, and a participation append is acked as a duplicate only where the original has the same effect
on the membership, every gated fact was written by a member. -/
theorem log_authored_by_members {c : Config Ans Call World CommandResult}
    (h : Reachable machine handleCommand (appendPolicy nobodyLeft coveredByOriginal) World.start c)
    (tenant iid : String) :
    AuthoredByMembers (factsOf c.world.broker (logSubjectFor tenant iid)) :=
  membership.logs h _

namespace Scenario

/-- The ack of the first message of the member `A` is lost.  Before router 1 reconciles, router 2
lands that `A` has left.  Router 1 takes over the new token but not the new membership, and lets the
second message of `A` through. -/
def leftBeforeReconcile : Schedule :=
  [.spawn (ordinary 1 backend "s" "interaction.started" [])] ++ acts 0 (write cold .go) ++
  [.spawn (privileged 1 "p" "participant.assign" "A" "")] ++ acts 1 (land warm .go) ++
  [.spawn (ordinary 1 (agent "A") "c" "message" [])] ++ acts 2 (warm ++ [.go] ++ offer .lost) ++
  [.spawn (privileged 2 "q" "participant.unassign" "A" "")] ++ acts 3 (land cold .go) ++
  acts 2 [.go, .go] ++
  [.spawn (ordinary 1 (agent "A") "d" "message" [])] ++ acts 4 (write warm .go)

def reconciledInTime : Schedule :=
  [.spawn (ordinary 1 backend "s" "interaction.started" [])] ++ acts 0 (write cold .go) ++
  [.spawn (privileged 2 "p" "participant.assign" "A" "")] ++ acts 1 (land cold .go) ++
  [.spawn (privileged 1 "p" "participant.assign" "A" "")] ++ acts 2 (land warm .dedupFirst) ++
  [.spawn (ordinary 1 (agent "A") "c" "message" [])] ++
    acts 3 (warm ++ [.go] ++ offer .lost ++ [.go, .go]) ++
  [.spawn (ordinary 1 (agent "A") "d" "message" [])] ++ acts 4 (write warm .go)

end Scenario

open Scenario in
/-- Without the conditions an agent who has left still writes. -/
theorem log_authored_by_revoked : ∃ c : Config Ans Call World CommandResult,
    Reachable machine handleCommand Policy.free World.start c ∧
      ¬ AuthoredByMembers (factsOf c.world.broker (logSubjectFor "t" "i")) := by
  have hrun : (run machine handleCommand Policy.free leftBeforeReconcile ⟨World.start, []⟩).map
      (fun c => (factsOf c.world.broker (logSubjectFor "t" "i")).getLast?.map fun f =>
        (decide f.Gated,
          isMember (factsOf c.world.broker (logSubjectFor "t" "i")).dropLast f.event.actorId)) =
        some (some (true, false)) := by
    decide +kernel
  rcases exists_of_run hrun with ⟨c, hc, hlast⟩
  refine ⟨c, hc, ?_⟩
  intro hauth
  rcases Option.map_eq_some_iff.1 hlast with ⟨f, hf, hpair⟩
  rcases Prod.mk.inj hpair with ⟨hgated, hmember⟩
  have hsplit := List.getLast?_eq_some_iff.1 hf
  rcases hsplit with ⟨before, hbefore⟩
  rw [hbefore, List.dropLast_concat] at hmember
  have := hauth before f [] hbefore (of_decide_eq_true hgated)
  rw [hmember] at this
  cases this

/-- The log extends the prefix of the cached token by facts none of which is a leave. -/
def noLeaveSince (named fs : List Fact) : Prop :=
  named <+: fs ∧ ∀ f ∈ fs.drop named.length, f.event.eventType ≠ "participant.left"
  deriving Decidable

def sameFactNext (ev : Event) (named upTo : List Fact) : Prop :=
  upTo.dropLast = named ∧
    upTo.getLast?.map (fun f => (f.event.eventType, f.event.actorId)) = some (ev.eventType, ev.actorId)
  deriving Decidable

theorem isMember_append {rest : List Fact} {agent : String}
    (hrest : ∀ f ∈ rest, f.event.eventType ≠ "participant.left") (h : isMember named agent = true) :
    isMember (named ++ rest) agent = true := by
  induction rest using List.reverseRecOn with
  | nil => simpa using h
  | append_singleton rest f ih =>
    have hbefore := ih fun g hg => hrest g (by simp [hg])
    have hf := hrest f (by simp)
    rw [← List.append_assoc, isMember_concat]
    simp [ParticipationView.nowAfter, hf, hbefore]

theorem noLeaveSince.nobodyLeft (h : noLeaveSince named fs) : nobodyLeft named fs := by
  rcases h with ⟨⟨rest, rfl⟩, hrest⟩
  intro agent hagent
  exact isMember_append (by simpa using hrest) hagent

theorem sameFactNext.coveredByOriginal {ev : Event} {upTo : List Fact}
    (h : sameFactNext ev named upTo) : coveredByOriginal ev named upTo := by
  rcases h with ⟨rfl, hlast⟩
  rcases Option.map_eq_some_iff.1 hlast with ⟨original, horig, hsame⟩
  rcases List.getLast?_eq_some_iff.1 horig with ⟨before, rfl⟩
  rcases Prod.mk.inj hsame with ⟨htype, hactor⟩
  intro agent hagent
  rw [isMember_concat]
  simpa [ParticipationView.nowAfter, htype, hactor] using hagent

open Scenario in
theorem log_authored_by_members_reconciledInTime : ∃ c : Config Ans Call World CommandResult,
    Reachable machine handleCommand (appendPolicy nobodyLeft coveredByOriginal) World.start c ∧
      (factsOf c.world.broker (logSubjectFor "t" "i")).length = 4 ∧
      AuthoredByMembers (factsOf c.world.broker (logSubjectFor "t" "i")) := by
  have hrun : (run machine handleCommand (appendPolicy noLeaveSince sameFactNext) reconciledInTime
      ⟨World.start, []⟩).map (fun c => (factsOf c.world.broker (logSubjectFor "t" "i")).length) =
        some 4 := by
    decide +kernel
  rcases exists_of_run hrun with ⟨c, hc, hlen⟩
  have hc' : Reachable machine handleCommand (appendPolicy nobodyLeft coveredByOriginal)
      World.start c := by
    refine appendPolicy_mono ?_ ?_ hc
    · intro named fs h
      exact h.nobodyLeft
    · intro ev named upTo h
      exact h.coveredByOriginal
  exact ⟨c, hc', hlen, log_authored_by_members hc' "t" "i"⟩

end RelayPoint.Signaling
