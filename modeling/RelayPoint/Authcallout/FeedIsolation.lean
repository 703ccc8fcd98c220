import RelayPoint.Authcallout.Confinement
import RelayPoint.Projector.Pipeline
import RelayPoint.Signaling.LogLaws

/-!
# FeedIsolation — who can read what is published for an agent

Three components must agree on the subject of an agent's feed: the router admits the agent of a
participation command as it stands in the payload, the projector puts it between two dots, and the
grant of a subscriber has a wildcard after its own token.  An agent whose second token is `feed` puts
the dots in the wrong place: what is published for `x.feed.y` is read by `x`.  All other agents, dots
or not, are read by nobody but the subscriber of that very name and tenant.
-/

namespace RelayPoint.Authcallout

open Concurrency Projector
open Signaling (splitDot DotFree handleCommand CommandResult)

/-! ## Subjects -/

theorem dotted_append : ∀ {ts us : List String}, ts ≠ [] → us ≠ [] →
    dotted (ts ++ us) = dotted ts ++ "." ++ dotted us := by
  intro ts
  induction ts with
  | nil => exact fun h => absurd rfl h
  | cons t ts ih =>
    intro us _ hus
    cases ts with
    | nil =>
      obtain ⟨u, us, rfl⟩ := List.exists_cons_of_ne_nil hus
      simp [dotted]
    | cons t' ts =>
      have htail : dotted (t' :: ts ++ us) = dotted (t' :: ts) ++ "." ++ dotted us :=
        ih (by simp) hus
      simp only [List.cons_append] at htail ⊢
      rw [dotted_cons_cons, htail, dotted_cons_cons]
      simp [String.append_assoc]

theorem splitDot_subject {m : FeedMsg} (ht : DotFree m.tenant) (hi : DotFree m.iid) :
    splitDot m.subject = "tenant" :: m.tenant :: "agent" :: (splitDot m.agent ++ ["feed", m.iid]) := by
  have hagent : splitDot m.agent ≠ [] := by simp [splitDot]
  have hdotted : m.subject =
      dotted (["tenant", m.tenant, "agent"] ++ (splitDot m.agent ++ ["feed", m.iid])) := by
    calc m.subject
        = dotted ["tenant", m.tenant, "agent"] ++ "." ++ (m.agent ++ "." ++ dotted ["feed", m.iid]) := by
          rw [← String.toList_inj]
          simp [FeedMsg.subject, toList_dotted]
      _ = _ := by
          rw [dotted_append (by simp) (by simp), dotted_append hagent (by simp), dotted_splitDot]
  rw [hdotted, splitDot_dotted (by simp)]
  · rfl
  · simp only [List.cons_append, List.nil_append, List.mem_cons, List.mem_append, List.not_mem_nil,
      or_false]
    rintro u (rfl | rfl | rfl | hu | rfl | rfl)
    · decide
    · exact ht
    · decide
    · exact Signaling.dotFree_of_mem_splitDot hu
    · decide
    · exact hi

theorem covers_subject_iff {m : FeedMsg} {t self : String} (hmt : DotFree m.tenant)
    (hmi : DotFree m.iid) (ht : Plain t) (hself : Plain self)
    (hagent : (splitDot m.agent)[1]? ≠ some "feed") :
    Covers (ownFeed t self) m.subject ↔ t = m.tenant ∧ self = m.agent := by
  rw [covers_ownFeed ht hself, splitDot_subject hmt hmi]
  constructor
  · rintro ⟨rest, htokens, _⟩
    simp only [List.cons.injEq, true_and] at htokens
    rcases htokens with ⟨htenant, htail⟩
    refine ⟨htenant.symm, ?_⟩
    -- the agent is one token: a second one would have to be `feed`
    cases hsplit : splitDot m.agent with
    | nil => simp [splitDot] at hsplit
    | cons first more =>
      rw [hsplit] at htail hagent
      cases more with
      | nil =>
        have hfirst : first = self := (List.cons.inj htail).1
        rw [← dotted_splitDot m.agent, hsplit, ← hfirst]
        simp [dotted]
      | cons second more =>
        have hsecond : second = "feed" := (List.cons.inj (List.cons.inj htail).2).1
        simp [hsecond] at hagent
  · rintro ⟨rfl, rfl⟩
    exact ⟨[m.iid], by simp [splitDot_of_dotFree hself.dotFree], by simp⟩

/-! ## End to end -/

/-- Whatever the routers accept and whatever happens to the projector: what it publishes for an agent
whose second token is not `feed` is matched by the feed pattern of a subscriber just if the subscriber
has the tenant and the name of that agent. -/
theorem feed_isolation
    {c : Concurrency.Config Signaling.Ans Signaling.Call Signaling.World CommandResult}
    {pc : Takeover.Config Projector.Ans Worker Projector.World Unit}
    (h : PipelineRun Policy.free c pc) {m : FeedMsg} (hm : Issued pc m)
    (hagent : (splitDot m.agent)[1]? ≠ some "feed") {id : Identity} {conn : String} {g : Grant}
    (hgrant : grantsFor id conn = .ok g) (hrole : id.role = "") :
    ownFeed id.tenantId id.userId ∈ g.subAllow ∧
      (Covers (ownFeed id.tenantId id.userId) m.subject ↔
        id.tenantId = m.tenant ∧ id.userId = m.agent) := by
  rcases minted_of_grantsFor hgrant with ⟨ht, hself, hminted⟩
  rcases origin_of_issued h hm with ⟨_, _, _, _, _, hplaced⟩
  refine ⟨?_, covers_subject_iff hplaced.tenant hplaced.iid ht hself hagent⟩
  cases hminted with
  | visitor hvisitor => exact absurd (hvisitor.symm.trans hrole) (by decide)
  | trustedBackend htrusted => exact absurd (htrusted.symm.trans hrole) (by decide)
  | subscriber => simp [subscriberGrant, ownFeed]

namespace Scenario

def assigned (agent : String) : Signaling.Scenario.Schedule :=
  [.spawn (Signaling.Scenario.ordinary 1 Signaling.Scenario.backend "s" "interaction.started" [])] ++
    Signaling.Scenario.acts 0 (Signaling.Scenario.write Signaling.Scenario.cold .go) ++
  [.spawn (Signaling.Scenario.privileged 1 "p" "participant.assign" agent "")] ++
    Signaling.Scenario.acts 1 (Signaling.Scenario.land Signaling.Scenario.warm .go)

def joinSent (agent : String) : Projector.Scenario.Schedule :=
  .takeover Projector.Scenario.worker :: Projector.Scenario.acts
    (Projector.Scenario.hydration none ++ [.go, .listed [], .go] ++ Projector.Scenario.finished ++
      [.go, .listed [agent], .go, .go])

def feedAfter (agent : String) : Option (List FeedMsg) :=
  (Concurrency.run Signaling.machine handleCommand Policy.free (assigned agent)
    ⟨Signaling.World.start, []⟩).bind fun c =>
      (Takeover.run (machine none) Projector.run Policy.free (joinSent agent)
        ⟨World.start (routerLog c.world), none⟩).map fun pc => pc.world.feed

theorem exists_of_feedAfter {agent subject : String}
    (h : (feedAfter agent).map (fun feed => feed.map fun m => (m.tenant, m.agent, m.subject)) =
      some [("t", agent, subject)]) :
    ∃ c pc m, PipelineRun Policy.free c pc ∧ Issued pc m ∧ m.tenant = "t" ∧ m.agent = agent ∧
      m.subject = subject := by
  rcases Option.map_eq_some_iff.1 h with ⟨feed, hfeed, hview⟩
  rcases Option.bind_eq_some_iff.1 hfeed with ⟨c, hc, hpc⟩
  rcases Takeover.exists_of_run hpc with ⟨pc, hreach, hsame⟩
  rcases List.map_eq_singleton_iff.1 hview with ⟨m, rfl, hm⟩
  simp only [Prod.mk.injEq] at hm
  have hrun : PipelineRun Policy.free c pc :=
    ⟨Concurrency.Reachable.start.run hc, none, Policy.free, hreach⟩
  exact ⟨c, pc, m, hrun, .inl (by simp [hsame]), hm⟩

def subscriber (t user : String) : Identity where
  tenantId := t
  userId := user
  role := ""
  capability := Signaling.capabilityAgentFeed
  conversationId := ""

end Scenario

open Scenario in
/-- What is published for the agent `x.feed.y` is matched by the pattern of the subscriber `x`, who
reads it. -/
theorem feed_read_by_other : ∃ c pc m id g, PipelineRun Policy.free c pc ∧ Issued pc m ∧
    grantsFor id "conn" = .ok g ∧ id.role = "" ∧ Covers (ownFeed id.tenantId id.userId) m.subject ∧
      g.Reads m.subject ∧ id.tenantId = m.tenant ∧ id.userId ≠ m.agent := by
  have hfeed : (feedAfter "x.feed.y").map
      (fun feed => feed.map fun m => (m.tenant, m.agent, m.subject)) =
        some [("t", "x.feed.y", "tenant.t.agent.x.feed.y.feed.i")] := by
    decide +kernel
  have hgrant : grantsFor (subscriber "t" "x") "conn" =
      .ok (subscriberGrant "t" "x" "conn" Signaling.capabilityAgentFeed) := by
    decide +kernel
  have hcovers : Covers (ownFeed "t" "x") "tenant.t.agent.x.feed.y.feed.i" := by
    decide +kernel
  rcases exists_of_feedAfter hfeed with ⟨c, pc, m, hrun, hm, htenant, hagent, hsubject⟩
  rcases minted_of_grantsFor hgrant with ⟨ht, hself, _⟩
  rw [← hsubject] at hcovers
  refine ⟨c, pc, m, subscriber "t" "x", _, hrun, hm, hgrant, rfl, hcovers,
    subscriber_reads_feed ht hself hcovers, htenant.symm, ?_⟩
  rw [hagent]
  decide

open Scenario in
theorem feed_isolation_alice : ∃ c pc m, PipelineRun Policy.free c pc ∧ Issued pc m ∧
    Covers (ownFeed "t" "alice") m.subject ∧ ¬ Covers (ownFeed "t" "bob") m.subject := by
  have hfeed : (feedAfter "alice").map
      (fun feed => feed.map fun m => (m.tenant, m.agent, m.subject)) =
        some [("t", "alice", "tenant.t.agent.alice.feed.i")] := by
    decide +kernel
  have hgrant : grantsFor (subscriber "t" "alice") "conn" =
      .ok (subscriberGrant "t" "alice" "conn" Signaling.capabilityAgentFeed) := by
    decide +kernel
  have hgrant' : grantsFor (subscriber "t" "bob") "conn" =
      .ok (subscriberGrant "t" "bob" "conn" Signaling.capabilityAgentFeed) := by
    decide +kernel
  rcases exists_of_feedAfter hfeed with ⟨c, pc, m, hrun, hm, htenant, hagent, _⟩
  have hsecond : (splitDot m.agent)[1]? ≠ some "feed" := by
    rw [hagent]
    decide +kernel
  have halice := (feed_isolation hrun hm hsecond hgrant rfl).2
  have hbob := (feed_isolation hrun hm hsecond hgrant' rfl).2
  refine ⟨c, pc, m, hrun, hm, halice.2 ⟨htenant.symm, hagent.symm⟩, ?_⟩
  intro hcovers
  exact absurd ((hbob.1 hcovers).2.trans hagent) (by decide)

end RelayPoint.Authcallout
