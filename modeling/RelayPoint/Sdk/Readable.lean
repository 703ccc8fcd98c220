import RelayPoint.Sdk.Client
import RelayPoint.Sdk.Codec
import RelayPoint.Signaling.LogLaws
import RelayPoint.Signaling.Origin

/-!
# Readable — every fact of a log can be read by every client

The router takes the data of a command as they are, and the SDK reads those of a chat message.  So a
client reads every fact of a log to which all chat messages were sent as such, and its delivery does
not fail (`facts_readable`); a message with other data stops the delivery of every client of the
interaction (`unreadable_fact`).
-/

namespace RelayPoint.Sdk

open Concurrency Journal Protobuf Wire
open Signaling (Event Call CommandResult handleCommand orDefault)

def ChatReady (call : Call) : Prop :=
  call.Meets (fun c => isChatMessage (orDefault c.cmd.medium "chat") c.cmd.type = true → IsChatWire c.cmd.data)
    fun _ => True

def readLog (td : TextDecoder) (w : Signaling.World) (subject : String) :
    List (Except DecodeError LogEvent) :=
  (Journal.log subject w.broker.stream).map fun m => decodeLogEvent td (marshalEvent m.payload.event)

theorem isChatMessage_of_isParticipationFact {medium type : String}
    (h : Signaling.isParticipationFact type = true) : isChatMessage medium type = false := by
  have htype : type = "participant.joined" ∨ type = "participant.left" := by
    simpa [Signaling.isParticipationFact] using h
  have hstart : startsWith type "message." = false := by
    rcases htype with rfl | rfl
    · decide
    · decide
  simp [isChatMessage, hstart]

theorem ChatReady.isChatWire {call : Call} {m : Msg String String Signaling.Fact} (h : ChatReady call)
    (horigin : call.Originates m)
    (hchat : isChatMessage m.payload.event.medium m.payload.event.eventType = true) :
    IsChatWire m.payload.event.data := by
  cases horigin with
  | ordinary hrequest _ hevent =>
    simp only [ChatReady, Call.Meets, hrequest] at h
    rw [hevent] at hchat ⊢
    exact h hchat
  | privileged _ hf _ hevent =>
    rw [hevent] at hchat
    have hnone := isChatMessage_of_isParticipationFact (Signaling.Privileged.isParticipationFact hf) ▸ hchat
    simp at hnone

theorem numbered_readLog {td : TextDecoder} {w : Signaling.World} {subject : String}
    (hcarried : ∀ m ∈ w.broker.stream, Transmissible m.payload.event)
    (hread : ∀ m ∈ w.broker.stream, ∃ ev, decodeLogEvent td (marshalEvent m.payload.event) = .ok ev)
    (hdense : Signaling.Dense ((Journal.log subject w.broker.stream).map Msg.payload)) :
    Numbered (readLog td w subject) := by
  intro n x hx
  rw [readLog, List.getElem?_map] at hx
  rcases Option.map_eq_some_iff.1 hx with ⟨m, hm, hdecode⟩
  have hmem : m ∈ w.broker.stream := (List.mem_filter.1 (List.mem_of_getElem? hm)).1
  rcases hread m hmem with ⟨ev, hev⟩
  refine ⟨ev, by rw [← hdecode, hev], ?_⟩
  -- the sequence that is read is the one of the fact, and the facts are numbered
  have hsequence : ev.sequence = m.payload.event.sequence := by
    rw [decodeLogEvent_marshalEvent td (hcarried m hmem)] at hev
    cases hp : decodePayload td m.payload.event.medium m.payload.event.eventType m.payload.event.data with
    | error err => simp [hp, Except.map] at hev
    | ok p =>
      simp only [hp, Except.map, Except.ok.injEq] at hev
      rw [← hev]
      rfl
  have hnth := congrArg (fun xs => xs[n]?) hdense
  have hlt : n < (Journal.log subject w.broker.stream).length := (List.getElem?_eq_some_iff.1 hm).1
  simp only [List.getElem?_map, hm, List.length_map, List.getElem?_range hlt] at hnth
  rw [hsequence]
  exact Option.some.inj hnth

/-- In every run of the routers in which the commands for chat messages carry chat messages, every fact
can be read by every client; and no delivery of a client fails whose store is complete, on a log with
dense sequences. -/
theorem facts_readable (td : TextDecoder)
    {c : Concurrency.Config Signaling.Ans Call Signaling.World CommandResult}
    (h : Reachable Signaling.machine handleCommand Policy.free Signaling.World.start c)
    (hready : ∀ th ∈ c.pool, ChatReady th.call)
    (hcarried : ∀ m ∈ c.world.broker.stream, Transmissible m.payload.event) :
    (∀ m ∈ c.world.broker.stream, ∃ ev, decodeLogEvent td (marshalEvent m.payload.event) = .ok ev) ∧
      ∀ subject, Signaling.Dense ((Journal.log subject c.world.broker.stream).map Msg.payload) →
        ∀ client, Reached Delivery.defaultBackoff (readLog td c.world subject) client →
          client.delivery.state ≠ .failed := by
  have hread : ∀ m ∈ c.world.broker.stream,
      ∃ ev, decodeLogEvent td (marshalEvent m.payload.event) = .ok ev := by
    intro m hm
    rcases (Signaling.originates h m hm).1 with ⟨th, hth, horigin⟩
    rcases exists_decodePayload td (hcarried m hm) ((hready th hth).isChatWire horigin) with ⟨p, hp⟩
    exact ⟨_, by rw [decodeLogEvent_marshalEvent td (hcarried m hm), hp]; rfl⟩
  refine ⟨hread, fun subject hdense client hclient => ?_⟩
  exact unfailed_of_complete (numbered_readLog hcarried hread hdense) (by decide) hclient

namespace Scenario

def messageWritten (data : Bytes) : Signaling.Scenario.Schedule :=
  [.spawn (Signaling.Scenario.ordinary 1 Signaling.Scenario.backend "s" "interaction.started" [])] ++
    Signaling.Scenario.acts 0 (Signaling.Scenario.write Signaling.Scenario.cold .go) ++
  [.spawn (Signaling.Scenario.ordinary 1 Signaling.Scenario.backend "m" "message.created" data)] ++
    Signaling.Scenario.acts 1 (Signaling.Scenario.write Signaling.Scenario.warm .go)

structure Written where
  subject : String
  eventType : String
  medium : String
  sequence : Int
  data : Bytes
  carried : Bool
deriving DecidableEq

def written (m : Msg String String Signaling.Fact) : Written :=
  ⟨m.subject, m.payload.event.eventType, m.payload.event.medium, m.payload.event.sequence,
    m.payload.event.data, decide (Transmissible m.payload.event)⟩

def writtenRun (data : Bytes) : Option (Option CommandResult × List (Option Bytes) × List Written) :=
  (Concurrency.run Signaling.machine handleCommand Policy.free (messageWritten data)
    ⟨Signaling.World.start, []⟩).map fun c =>
      ((c.result 1).map Prod.snd, c.pool.map fun th => th.call.data.map Signaling.Command.data,
        c.world.broker.stream.map written)

def started : Written :=
  ⟨Signaling.Scenario.log, "interaction.started", "chat", 1, [], true⟩

def created (data : Bytes) : Written :=
  ⟨Signaling.Scenario.log, "message.created", "chat", 2, data, true⟩

theorem exists_of_writtenRun {data : Bytes} (h : writtenRun data =
    some (some (Signaling.accepted "m"), [some [], some data], [started, created data])) :
    ∃ c m₁ m₂, Reachable Signaling.machine handleCommand Policy.free Signaling.World.start c ∧
      (c.result 1).map Prod.snd = some (Signaling.accepted "m") ∧
        (∀ th ∈ c.pool, ∀ cmd, th.call.data = some cmd → cmd.data = [] ∨ cmd.data = data) ∧
          c.world.broker.stream = [m₁, m₂] ∧ written m₁ = started ∧ written m₂ = created data ∧
            Signaling.Dense ((Journal.log Signaling.Scenario.log [m₁, m₂]).map Msg.payload) := by
  rcases Option.map_eq_some_iff.1 h with ⟨c, hc, hview⟩
  simp only [Prod.mk.injEq] at hview
  rcases hview with ⟨hreply, hcalls, hlog⟩
  have htwo : ∃ m₁ m₂, c.world.broker.stream = [m₁, m₂] := by
    refine List.length_eq_two.1 ?_
    simpa using congrArg List.length hlog
  rcases htwo with ⟨m₁, m₂, hstream⟩
  have hwritten : written m₁ = started ∧ written m₂ = created data := by simpa [hstream] using hlog
  refine ⟨c, m₁, m₂, Concurrency.Reachable.start.run hc, hreply, ?_, hstream, hwritten.1, hwritten.2, ?_⟩
  · intro th hth cmd hcmd
    have hmem : some cmd.data ∈ c.pool.map fun th => th.call.data.map Signaling.Command.data :=
      List.mem_map.2 ⟨th, hth, by simp [hcmd]⟩
    rw [hcalls] at hmem
    simpa using hmem
  · have hsubject₁ := congrArg Written.subject hwritten.1
    have hsubject₂ := congrArg Written.subject hwritten.2
    have hsequence₁ := congrArg Written.sequence hwritten.1
    have hsequence₂ := congrArg Written.sequence hwritten.2
    simp only [written, started, created] at hsubject₁ hsubject₂ hsequence₁ hsequence₂
    simp [Journal.log, hsubject₁, hsubject₂, Signaling.Dense, hsequence₁, hsequence₂, List.range_succ]

end Scenario

open Scenario in
/-- The router accepts a message whose data are no chat message.  No client can read its fact, and a
delivery fails at it with a complete store. -/
theorem unreadable_fact : ∃ c m, Reachable Signaling.machine handleCommand Policy.free Signaling.World.start c ∧
    (c.result 1).map Prod.snd = some (Signaling.accepted "m") ∧ m ∈ c.world.broker.stream ∧
      (∀ x ∈ c.world.broker.stream, Transmissible x.payload.event) ∧
        Signaling.Dense ((Journal.log Signaling.Scenario.log c.world.broker.stream).map Msg.payload) ∧
          ∀ td, decodeLogEvent td (marshalEvent m.payload.event) = .error .malformed ∧
            ∃ client, Reached Delivery.defaultBackoff (readLog td c.world Signaling.Scenario.log) client ∧
              client.delivery.state = .failed := by
  have hrun : writtenRun [255] =
      some (some (Signaling.accepted "m"), [some [], some [255]], [started, created [255]]) := by
    decide +kernel
  rcases exists_of_writtenRun hrun with ⟨c, m₁, m₂, hreach, hreply, -, hstream, hfirst, hsecond, hdense⟩
  simp only [written, started, created, Written.mk.injEq, decide_eq_true_eq] at hfirst hsecond
  rcases hfirst with ⟨hsubject₁, htype₁, hmedium₁, -, hdata₁, hcarried₁⟩
  rcases hsecond with ⟨hsubject₂, htype₂, hmedium₂, -, hdata₂, hcarried₂⟩
  have hlog : Journal.log Signaling.Scenario.log c.world.broker.stream = [m₁, m₂] := by
    simp [Journal.log, hstream, hsubject₁, hsubject₂]
  refine ⟨c, m₂, hreach, hreply, by simp [hstream], by simp [hstream, hcarried₁, hcarried₂], ?_, fun td => ?_⟩
  · rwa [hstream]
  · have hfirst : decodePayload td "chat" "interaction.started" [] = .ok (.raw []) := rfl
    have hsecond : decodePayload td "chat" "message.created" [255] = .error .malformed := rfl
    have hread₁ : decodeLogEvent td (marshalEvent m₁.payload.event) = .ok (logEvent m₁.payload.event (.raw [])) := by
      rw [decodeLogEvent_marshalEvent td hcarried₁, htype₁, hmedium₁, hdata₁, hfirst]
      rfl
    have hread₂ : decodeLogEvent td (marshalEvent m₂.payload.event) = .error .malformed := by
      rw [decodeLogEvent_marshalEvent td hcarried₂, htype₂, hmedium₂, hdata₂, hsecond]
      rfl
    refine ⟨hread₂, ?_⟩
    have hreadLog : readLog td c.world Signaling.Scenario.log =
        [.ok (logEvent m₁.payload.event (.raw [])), .error .malformed] := by
      simp [readLog, hlog, hread₁, hread₂]
    rw [hreadLog]
    refine fails_of_unreadable Delivery.defaultBackoff (n := 1) rfl fun k hk => ?_
    obtain rfl : k = 0 := Nat.lt_one_iff.1 hk
    exact ⟨_, rfl⟩

theorem chatReady_of_data {call : Call}
    (h : ∀ cmd, call.data = some cmd → isChatMessage (orDefault cmd.medium "chat") cmd.type = true →
      IsChatWire cmd.data) : ChatReady call := by
  unfold ChatReady Call.Meets
  split
  · trivial
  · next c hrequest => exact h c.cmd (Signaling.Call.request_ordinary hrequest).payload
  · trivial

open Scenario in
theorem facts_readable_hi : ∃ c m,
    Reachable Signaling.machine handleCommand Policy.free Signaling.World.start c ∧
      m ∈ c.world.broker.stream ∧ m.payload.event.eventType = "message.created" ∧
        (∃ ev, decodeLogEvent .strict (marshalEvent m.payload.event) = .ok ev) ∧
          ∀ client, Reached Delivery.defaultBackoff (readLog .strict c.world Signaling.Scenario.log) client →
            client.delivery.state ≠ .failed := by
  have hrun : writtenRun [10, 2, 104, 105] =
      some (some (Signaling.accepted "m"), [some [], some [10, 2, 104, 105]],
        [started, created [10, 2, 104, 105]]) := by
    decide +kernel
  rcases exists_of_writtenRun hrun with ⟨c, m₁, m₂, hreach, -, hdata, hstream, hfirst, hsecond, hdense⟩
  simp only [written, started, created, Written.mk.injEq, decide_eq_true_eq] at hfirst hsecond
  rcases hfirst with ⟨-, -, -, -, -, hcarried₁⟩
  rcases hsecond with ⟨-, htype₂, -, -, -, hcarried₂⟩
  have hwire : ∀ data : Bytes, data = [] ∨ data = [10, 2, 104, 105] → IsChatWire data := by
    rintro data (rfl | rfl)
    · exact ⟨[], List.forall_mem_nil _, rfl⟩
    · exact ⟨textEntry 1 "hi", allFit_textEntry (by decide) rfl "hi", by decide +kernel⟩
  have hready : ∀ th ∈ c.pool, ChatReady th.call :=
    fun th hth => chatReady_of_data fun cmd hcmd _ => hwire _ (hdata th hth cmd hcmd)
  have hread := facts_readable .strict hreach hready (by simp [hstream, hcarried₁, hcarried₂])
  rw [← hstream] at hdense
  exact ⟨c, m₂, hreach, by simp [hstream], htype₂, hread.1 m₂ (by simp [hstream]), hread.2 _ hdense⟩

end RelayPoint.Sdk
