import RelayPoint.Authcallout.Confinement
import RelayPoint.Projector.FoldRange
import RelayPoint.Projector.Publishing
import RelayPoint.Signaling.Origin

/-!
# Pipeline — from the commands of the routers to the feeds

The log that the projector consumes is the one that the routers have written.  So a message that the
projector publishes is made of an event of some call of the routers' run, for the tenant and the
interaction that the subject of the call names (`origin_of_issued`).
-/

namespace RelayPoint.Projector

open Concurrency Journal Signaling

def routerLog (w : Signaling.World) : List Fact :=
  FoldRange.deliveredFacts (fun f : Signaling.Fact => some f.event) w.broker.stream

/-- A run of the routers, and a run of the projector over the log that they have written. -/
structure PipelineRun (P : Policy Signaling.Op Call Signaling.World Signaling.Choice Signaling.Tick)
    (c : Concurrency.Config Signaling.Ans Call Signaling.World CommandResult)
    (pc : Takeover.Config Ans Worker World Unit) : Prop where
  routers : Concurrency.Reachable Signaling.machine handleCommand P Signaling.World.start c
  projector : ∃ max Q, Takeover.Reachable (machine max) run Q (World.start (routerLog c.world)) pc

/-! ## The subjects of the log -/

theorem splitDot_logSubjectFor {t i : String} (ht : DotFree t) (hi : DotFree i) :
    splitDot (logSubjectFor t i) = ["tenant", t, "interaction", i, "log"] := by
  have hdotted : logSubjectFor t i = Authcallout.dotted ["tenant", t, "interaction", i, "log"] := by
    rw [← String.toList_inj]
    simp [logSubjectFor, Authcallout.toList_dotted]
  rw [hdotted, Authcallout.splitDot_dotted (by simp)]
  simp only [List.mem_cons, List.not_mem_nil, or_false]
  rintro u (rfl | rfl | rfl | rfl | rfl)
  · decide
  · exact ht
  · decide
  · exact hi
  · decide

theorem iidFromLogSubject_logSubjectFor {t i : String} (ht : DotFree t) (hi : DotFree i) :
    FoldRange.iidFromLogSubject (logSubjectFor t i) = i := by
  simp [FoldRange.iidFromLogSubject, splitDot_logSubjectFor ht hi]

/-! ## Origins -/

section Origins

variable {P : Policy Signaling.Op Call Signaling.World Signaling.Choice Signaling.Tick}
variable {c : Concurrency.Config Signaling.Ans Call Signaling.World CommandResult}
variable {pc : Takeover.Config Ans Worker World Unit}

theorem mem_routerLog {w : Signaling.World} {f : Fact} (h : f ∈ routerLog w) :
    ∃ m ∈ w.broker.stream, f.event = some m.payload.event ∧
      f.iid = FoldRange.iidFromLogSubject m.subject := by
  rcases List.mem_map.1 h with ⟨d, hd, rfl⟩
  exact ⟨d.msg, mem_of_mem_feedFrom hd, rfl, rfl⟩

/-- Where an event of the routers' log comes from: a call on the interaction, for its tenant. -/
structure Placed (m : Msg String String Signaling.Fact) (t i : String) : Prop where
  tenant : DotFree t
  iid : DotFree i
  subject : m.subject = logSubjectFor t i
  event : m.payload.event.tenantId = t

theorem placed_of_originates {call : Call} {m : Msg String String Signaling.Fact}
    (h : call.Originates m) : ∃ t i, Placed m t i := by
  cases h with
  | @ordinary c _ _ _ hrequest hsubject hevent =>
    have hdots := parseCmdSubject_dotFree (Call.request_ordinary hrequest).named
    exact ⟨c.tenant, c.iid, hdots.1, hdots.2, hsubject, by rw [hevent]; rfl⟩
  | @privileged p _ _ _ _ hrequest _ hsubject hevent =>
    have hdots := parseCmdSubject_dotFree (Call.request_privileged hrequest).named
    exact ⟨p.tenant, p.iid, hdots.1, hdots.2, hsubject, by rw [hevent]; rfl⟩

theorem placed_of_mem (h : Concurrency.Reachable Signaling.machine handleCommand P
    Signaling.World.start c) {f : Fact} {e : Event} (hf : f ∈ routerLog c.world)
    (he : f.event = some e) :
    ∃ msg ∈ c.world.broker.stream, f.event = some msg.payload.event ∧ Placed msg e.tenantId f.iid := by
  rcases mem_routerLog hf with ⟨msg, hmsg, hevent, hiid⟩
  rcases (originates h msg hmsg).1 with ⟨th, _, horigin⟩
  rcases placed_of_originates horigin with ⟨t, i, hplaced⟩
  have hfi : f.iid = i := by
    rw [hiid, hplaced.subject, iidFromLogSubject_logSubjectFor hplaced.tenant hplaced.iid]
  cases hevent.symm.trans he
  rw [hplaced.event, hfi]
  exact ⟨msg, hmsg, hevent, hplaced⟩

theorem origin_of_issued (h : PipelineRun P c pc) {m : FeedMsg} (hm : Issued pc m) :
    ∃ msg ∈ c.world.broker.stream, ∃ f : Fact, f.event = some msg.payload.event ∧ f.Projects m ∧
      Placed msg m.tenant m.iid := by
  rcases h.projector with ⟨max, Q, hreach⟩
  rcases fromLog_of_issued hreach hm with ⟨f, hf, hprojects⟩
  cases hprojects with
  | event he hwf hm =>
    rcases placed_of_mem h.routers hf he with ⟨msg, hmsg, hevent, hplaced⟩
    subst hm
    exact ⟨msg, hmsg, f, hevent, .event he hwf rfl, hplaced⟩
  | tombstone he hwf hleft hm =>
    rcases placed_of_mem h.routers hf he with ⟨msg, hmsg, hevent, hplaced⟩
    subst hm
    exact ⟨msg, hmsg, f, hevent, .tombstone he hwf hleft rfl, hplaced⟩

theorem sequenced_routerLog (w : Signaling.World) : Sequenced (routerLog w) where
  streamSeqs := List.pairwise_map.2 feedFrom_increasing
  positive := by
    intro f hf
    rcases List.mem_map.1 hf with ⟨d, hd, rfl⟩
    exact (seq_of_mem_feedFrom hd).1

end Origins

end RelayPoint.Projector
