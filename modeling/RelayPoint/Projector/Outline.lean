import RelayPoint.Projector.Worker

/-!
# Outline — one proof outline for the worker

As for the router, the results about the projector share one shape: an invariant of the world,
assertions at the program points of `process`, and one obligation for each way a delivery can end.
`Outline.sound` executes the worker symbolically once, for any number of deliveries, and across any
number of takeovers.
-/

namespace RelayPoint.Projector

open Concurrency Signaling

structure Quiet (w w' : World) : Prop where
  log : w'.log = w.log
  fates : w'.fates = w.fates
  delivered : w'.delivered = w.delivered
  feed : w.feed ⊆ w'.feed
  dlq : w.dlq ⊆ w'.dlq

def Stored (w : World) (dedup : String) : Prop :=
  ∃ m ∈ w.feed, m.dedup = dedup

def Fact.WellFormed (f : Fact) : Prop :=
  ∃ e, f.event = some e ∧ e.tenantId ≠ "" ∧ e.eventType ≠ "" ∧ f.iid ≠ ""

/-- Every agent that the view covers at the event, and the agent of a leave, has been published to. -/
structure Published (w : World) (e : Event) (iid : String) (view : ParticipationView) : Prop where
  covered : ∀ a, covered (view.intervalsOf a) e.sequence = true →
    Stored w (eventID e.tenantId a iid e.sequence)
  revoked : e.eventType = "participant.left" →
    Stored w (tombstoneID e.tenantId e.actorId iid e.sequence)

def Loaded (w : World) (snap : Option Snapshot) (snapSeq : Nat) : Prop :=
  (snap = none ∧ snapSeq = 0) ∨ ∃ s, snap = some s ∧ (snapSeq, s) ∈ w.snaps

def hydratedState (w : World) (snap : Option Snapshot) (snapSeq : Nat) : State :=
  if snapSeq < w.ackFloor then
    (w.range snapSeq w.ackFloor).foldl State.applyFact (State.new.restore snap)
  else State.new.restore snap

/-- Assertions for the program points of the worker, with one obligation for each way on. -/
structure Outline (max : Option Nat) where
  okConfig : Config → Prop
  ok : World → Op → Choice → Prop
  okExpire : World → Prop
  Inv : World → Prop
  Sendable : Request → Prop
  Head : State → World → Prop
  Given : State → Delivery → World → Prop
  Held : State → Delivery → World → Prop
  Again : Delivery → Prop
  -- while the worker does not touch the consumer
  head_quiet : ∀ {st w w'}, Quiet w w' → Head st w → Head st w'
  given_quiet : ∀ {st d w w'}, Quiet w w' → Given st d w → Given st d w'
  held_quiet : ∀ {st d w w'}, Quiet w w' → Held st d w → Held st d w'
  serve : ∀ {w r}, Sendable r → Inv w → Inv (w.serve r)
  send : ∀ {w r}, Sendable r → Inv w → Inv (w.send r)
  arrive : ∀ {w r}, Inv w → r ∈ w.sent → Inv (w.serve r)
  expire : ∀ {w}, okExpire w → max ≠ some w.delivered
  -- hydration and delivery
  hydrated : ∀ {w snap snapSeq}, Inv w → Loaded w snap snapSeq → snapSeq ≤ w.ackFloor →
    Head (hydratedState w snap snapSeq) w
  delivered : ∀ {st w f}, Inv w → Head st w → w.log[w.cursor]? = some f →
    max ≠ some w.delivered →
    Inv { w with delivered := w.delivered + 1 } ∧
      Given st ⟨w.cursor, f, w.delivered + 1⟩ { w with delivered := w.delivered + 1 }
  malformed : ∀ {st d w}, Given st d w → ¬ d.fact.WellFormed → Held st d w
  applied : ∀ {st d w e}, Given st d w → d.fact.WellFormed → d.fact.event = some e →
    Held (st.applyEvent e d.fact.iid) d w
  -- what a worker with a delivery in hand may send
  publish : ∀ {st d w e a}, Held st d w → d.fact.WellFormed → d.fact.event = some e →
    covered ((st.view (viewKey e d.fact.iid)).intervalsOf a) e.sequence = true →
    Sendable (.publish (eventMsg e d.fact.iid a))
  tombstone : ∀ {st d w e}, Held st d w → d.fact.WellFormed → d.fact.event = some e →
    e.eventType = "participant.left" → Sendable (.publish (tombstoneMsg e d.fact.iid))
  dlq : ∀ {st d w} reason, Held st d w → Sendable (.dlq (d.record reason))
  save : ∀ {st d w}, Held st d w → d.fact.WellFormed →
    Sendable (.save d.fact.streamSeq st.snapshot)
  -- the ends of a delivery
  head_of_held : ∀ {st d w}, Held st d w → Head st w
  acked : ∀ {st d w e}, Inv w → Held st d w → d.fact.WellFormed → d.fact.event = some e →
    Published w e d.fact.iid (st.view (viewKey e d.fact.iid)) →
    Inv (w.settle d.index (.acked (some (st.view (viewKey e d.fact.iid))))) ∧
      Head st (w.settle d.index (.acked (some (st.view (viewKey e d.fact.iid)))))
  deadLettered : ∀ {st d w reason}, Inv w → Held st d w → d.record reason ∈ w.dlq →
    Inv (w.settle d.index (.acked none)) ∧ Head st (w.settle d.index (.acked none))
  givenBack : ∀ {st d w}, Inv w → Held st d w → Again d →
    Inv (w.giveBack max d.index) ∧ Head st (w.giveBack max d.index)
  -- why a fact is given back
  again_config : ∀ {cfg d}, okConfig cfg → (d.delivered : Int) < cfg.maxDeliver → Again d
  again_ctx : ∀ {st d w site err}, Held st d w → site ≠ .loop → ok w (.ctxErr site) (.fail err) →
    Again d
  again_dlq : ∀ {st d w reason ch}, Held st d w → ok w (.request (.dlq (d.record reason))) ch →
    ch ≠ .go → Again d

end RelayPoint.Projector
