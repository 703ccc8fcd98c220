import RelayPoint.Authcallout.FeedIsolation
import RelayPoint.Sdk.Codec

/-!
# Feed — what the SDK makes of the messages of a feed

A feed carries two kinds of message on one subject.  What the projector publishes is followed from
the command that the router took to the item that the SDK hands out (`feed_told_apart`).  The SDK
looks at the type of an event as if it were a control, so a type that starts with `feed.` makes a
control message of it (`event_read_as_revoked`).
-/

namespace RelayPoint.Sdk

open Concurrency Protobuf Wire
open Signaling (Event Call CommandResult DotFree handleCommand)
open Projector (FeedMsg FeedControl Worker PipelineRun Issued origin_of_issued)

def bytesOf (m : FeedMsg) : Bytes :=
  match m.payload with
  | .event e => marshalEvent e
  | .control c => marshalFeedControl c

def Carried (m : FeedMsg) : Prop :=
  match m.payload with
  | .event e => Transmissible e
  | .control c => (marshalFeedControl c).length < 2 ^ 32 ∧ c.atSequence.natAbs ≤ 2 ^ 53

theorem interactionIdFromFeedSubject_subject {m : FeedMsg} (ht : DotFree m.tenant) (hi : DotFree m.iid)
    (hne : m.iid ≠ "") (ha : DotFree m.agent) :
    interactionIdFromFeedSubject (some m.subject) = some m.iid := by
  simp [interactionIdFromFeedSubject, Authcallout.splitDot_subject ht hi,
    Authcallout.splitDot_of_dotFree ha, nonempty, hne]

theorem iid_ne_of_projects {f : Projector.Fact} {m : FeedMsg} (h : f.Projects m) : m.iid ≠ "" := by
  cases h with
  | event _ hwf hm | tombstone _ hwf _ hm =>
    rcases hwf with ⟨_, _, _, _, hne⟩
    rwa [hm]

/-- Whatever the routers accept and whatever happens to the projector: an event in the feed of an agent
whose name has no dot is read as that event of its interaction, if its type does not start with `feed.`
and its data are a chat message where its medium and type say so; and a tombstone is read as the
revocation that the leave of its interaction caused. -/
theorem feed_told_apart (td : TextDecoder)
    {c : Concurrency.Config Signaling.Ans Call Signaling.World CommandResult}
    {pc : Takeover.Config Projector.Ans Worker Projector.World Unit}
    (h : PipelineRun Policy.free c pc) {m : FeedMsg} (hm : Issued pc m) (hcarried : Carried m) :
    (∀ e, m.payload = .event e → startsWith e.eventType "feed." = false → DotFree m.agent →
      (isChatMessage e.medium e.eventType = true → IsChatWire e.data) →
        ∃ ev, decodeAgentFeedItem td (bytesOf m) (some m.subject) = .ok (.event m.iid ev) ∧
          ev.eventType = e.eventType ∧ ev.eventId = e.eventId ∧ ev.sequence = e.sequence) ∧
    ∀ ctl, m.payload = .control ctl →
      decodeAgentFeedItem td (bytesOf m) (some m.subject) = .ok (.revoked m.iid ctl.atSequence) ∧
        ∃ msg ∈ c.world.broker.stream, msg.subject = Signaling.logSubjectFor m.tenant m.iid ∧
          msg.payload.event.eventType = "participant.left" ∧
            msg.payload.event.sequence = ctl.atSequence := by
  rcases origin_of_issued h hm with ⟨msg, hmsg, f, hevent, hprojects, hplaced⟩
  unfold Carried at hcarried
  unfold bytesOf
  refine ⟨?_, ?_⟩
  · intro e he htype hagent hchat
    rw [he] at hcarried
    rcases exists_decodePayload td hcarried hchat with ⟨p, hp⟩
    refine ⟨logEvent e p, ?_, rfl, rfl, rfl⟩
    simp only [he]
    rw [decodeAgentFeedItem_marshalEvent td hcarried, if_neg (by simp [htype]), decodeProjected,
      interactionIdFromFeedSubject_subject hplaced.tenant hplaced.iid (iid_ne_of_projects hprojects) hagent]
    simp only [decodeLogEvent_marshalEvent td hcarried, hp, Except.map]
  · intro ctl hctl
    cases hprojects with
    | event _ _ hm =>
      rw [hm] at hctl
      cases hctl
    | @tombstone e he _ hleft hm =>
      cases hevent.symm.trans he
      subst hm
      cases hctl
      exact ⟨decodeAgentFeedItem_marshalFeedControl td rfl rfl hcarried.1 hcarried.2 _,
        msg, hmsg, hplaced.subject, hleft, rfl⟩

namespace Scenario

/-- Alice is assigned to an interaction, to which the backend then sends a message of the type. -/
def messageTaken (type : String) (data : Bytes) : Signaling.Scenario.Schedule :=
  Authcallout.Scenario.assigned "alice" ++
    [.spawn (Signaling.Scenario.ordinary 1 Signaling.Scenario.backend "m" type data)] ++
      Signaling.Scenario.acts 2 (Signaling.Scenario.write Signaling.Scenario.warm .go)

def messageSent : Projector.Scenario.Schedule :=
  Authcallout.Scenario.joinSent "alice" ++
    Projector.Scenario.acts (Projector.Scenario.finished ++ [.go, .listed ["alice"], .go, .go])

structure Shown where
  agent : String
  schema : String
  eventType : String
  data : Bytes
  carried : Bool
deriving DecidableEq

def shown (m : FeedMsg) : Option Shown :=
  match m.payload with
  | .event e => some ⟨m.agent, e.schema, e.eventType, e.data, decide (Transmissible e)⟩
  | .control _ => none

def messageRun (type : String) (data : Bytes) : Option (Option CommandResult × Option Shown) :=
  (Concurrency.run Signaling.machine handleCommand Policy.free (messageTaken type data)
    ⟨Signaling.World.start, []⟩).bind fun c =>
      (Takeover.run (Projector.machine none) Projector.run Policy.free messageSent
        ⟨Projector.World.start (Projector.routerLog c.world), none⟩).map fun pc =>
          ((c.result 2).map Prod.snd, pc.world.feed.getLast?.bind shown)

theorem exists_of_messageRun {type : String} {data : Bytes} (h : messageRun type data =
    some (some (Signaling.accepted "m"), some ⟨"alice", Signaling.schemaV1, type, data, true⟩)) :
    ∃ c pc m e, PipelineRun Policy.free c pc ∧ Issued pc m ∧
      (c.result 2).map Prod.snd = some (Signaling.accepted "m") ∧ m.agent = "alice" ∧
        m.payload = .event e ∧ e.schema = schemaV1 ∧ e.eventType = type ∧ e.data = data ∧
          Transmissible e := by
  rcases Option.bind_eq_some_iff.1 h with ⟨c, hc, hpc⟩
  rcases Takeover.exists_of_run hpc with ⟨pc, hreach, hview⟩
  rcases Prod.mk.inj hview with ⟨hreply, hlast⟩
  rcases Option.bind_eq_some_iff.1 hlast with ⟨m, hm, hshown⟩
  have hrun : PipelineRun Policy.free c pc :=
    ⟨Concurrency.Reachable.start.run hc, none, Policy.free, hreach⟩
  rcases m with ⟨tenant, agent, iid, dedup, payload⟩
  cases payload with
  | control ctl => cases hshown
  | event e =>
    simp only [shown, Option.some.injEq, Shown.mk.injEq, decide_eq_true_eq] at hshown
    rcases hshown with ⟨hagent, hschema, htype, hdata, hcarried⟩
    exact ⟨c, pc, _, e, hrun, .inl (List.mem_of_getLast? hm), hreply, hagent, rfl, hschema, htype,
      hdata, hcarried⟩

end Scenario

open Scenario in
/-- The router accepts a message of the type `feed.revoked`, and the SDK reads it in the feed of the
agent as a revocation, of an interaction that is named by the id of the event. -/
theorem event_read_as_revoked : ∃ c pc m e, PipelineRun Policy.free c pc ∧ Issued pc m ∧
    (c.result 2).map Prod.snd = some (Signaling.accepted "m") ∧ m.payload = .event e ∧
      ∀ td, decodeAgentFeedItem td (bytesOf m) (some m.subject) = .ok (.revoked e.eventId e.sequence) := by
  have hrun : messageRun "feed.revoked" [] = some (some (Signaling.accepted "m"),
      some ⟨"alice", Signaling.schemaV1, "feed.revoked", [], true⟩) := by
    decide +kernel
  rcases exists_of_messageRun hrun with
    ⟨c, pc, m, e, hpipeline, hm, hreply, -, hpayload, hschema, htype, -, hcarried⟩
  refine ⟨c, pc, m, e, hpipeline, hm, hreply, hpayload, fun td => ?_⟩
  have hstart : startsWith "feed.revoked" "feed." = true := by decide
  simp only [bytesOf, hpayload]
  rw [decodeAgentFeedItem_marshalEvent td hcarried, htype, if_pos ⟨hschema, hstart⟩, if_pos rfl]

open Scenario in
theorem feed_told_apart_alice : ∃ c pc m e ev, PipelineRun Policy.free c pc ∧ Issued pc m ∧
    m.payload = .event e ∧
      decodeAgentFeedItem .strict (bytesOf m) (some m.subject) = .ok (.event m.iid ev) ∧
        ev.sequence = e.sequence := by
  -- the data are the chat message with the text `hi`
  have hrun : messageRun "message.created" [10, 2, 104, 105] = some (some (Signaling.accepted "m"),
      some ⟨"alice", Signaling.schemaV1, "message.created", [10, 2, 104, 105], true⟩) := by
    decide +kernel
  rcases exists_of_messageRun hrun with
    ⟨c, pc, m, e, hpipeline, hm, -, hagent, hpayload, -, htype, hdata, hcarried⟩
  have hchat : IsChatWire e.data := by
    refine ⟨textEntry 1 "hi", allFit_textEntry (by decide) rfl "hi", ?_⟩
    rw [hdata]
    decide +kernel
  have hfeed := (feed_told_apart .strict hpipeline hm (by simpa [Carried, hpayload] using hcarried)).1 e
    hpayload (by rw [htype]; decide) (by rw [hagent]; decide) fun _ => hchat
  rcases hfeed with ⟨ev, hdecoded, -, -, hsequence⟩
  exact ⟨c, pc, m, e, ev, hpipeline, hm, hpayload, hdecoded, hsequence⟩

end RelayPoint.Sdk
