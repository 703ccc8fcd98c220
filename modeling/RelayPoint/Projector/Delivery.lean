import RelayPoint.Projector.Fanout

/-!
# Delivery — what the consumer stops delivering

The consumer is configured with the same bound on deliveries as the worker.  A fact whose last
permitted delivery fails is to be dead-lettered.  Three ways lead past that: the context of the worker
has ended, so it only gives the fact back; the dead-letter queue is unavailable, so it gives the fact
back as well; or the delivery gets no answer at all.  The worker counts on a redelivery in each of
them, and on the last permitted delivery there is none.
-/

namespace RelayPoint.Projector

open Concurrency Signaling

/-! ## The condition -/

/-- On the last permitted delivery the context has not ended when the worker looks at it, and the
dead-letter queue is available. -/
def LastOk (max : Nat) (w : World) (op : Op) (ch : Choice) : Prop :=
  match op with
  | .ctxErr .failed | .ctxErr .done | .request (.dlq _) => w.delivered = max → ch = .go
  | _ => True

/-- Workers and consumer have the same bound, and the last permitted delivery is answered. -/
abbrev deliveryPolicy (max : Nat) : Policy Op Worker World Choice Tick where
  spawn worker := worker.cfg.withDefaults.maxDeliver = max
  op _ w op ch := LastOk max w op ch
  tick w t := t = .expire → w.delivered ≠ max

/-! ## The invariant -/

/-- The fact at position `k` was acked after its publishes, or has a dead-letter record. -/
def Resolved (log : List Fact) (w : World) (k : Nat) (fate : Fate) : Prop :=
  (∃ view f e, fate = .acked (some view) ∧ log[k]? = some f ∧ f.event = some e ∧
      Published w e f.iid view) ∨
    ∃ (d : Delivery) (reason : String), d.index = k ∧ log[k]? = some d.fact ∧
      d.record reason ∈ w.dlq

structure DeliveryInv (log : List Fact) (w : World) : Prop where
  log_eq : w.log = log
  resolved : ∀ k fate, w.fates[k]? = some fate → Resolved log w k fate

structure Counted (log : List Fact) (d : Delivery) (w : World) : Prop extends InHand log d w where
  count : d.delivered = w.delivered

section Invariant

variable {log : List Fact} {w w' : World} {d : Delivery} {k : Nat} {fate : Fate}

theorem Resolved.mono (h : Resolved log w k fate) (hfeed : w.feed ⊆ w'.feed)
    (hdlq : w.dlq ⊆ w'.dlq) : Resolved log w' k fate := by
  rcases h with ⟨view, f, e, hfate, hf, he, hpub⟩ | ⟨d, reason, hd, hf, hr⟩
  · have hstored : ∀ {dedup}, Stored w dedup → Stored w' dedup := by
      rintro dedup ⟨m, hm, hid⟩
      exact ⟨m, hfeed hm, hid⟩
    exact .inl ⟨view, f, e, hfate, hf, he, fun a ha => hstored (hpub.covered a ha),
      fun hleft => hstored (hpub.revoked hleft)⟩
  · exact .inr ⟨d, reason, hd, hf, hdlq hr⟩

theorem DeliveryInv.quiet (hq : Quiet w w') (h : DeliveryInv log w) : DeliveryInv log w' where
  log_eq := hq.log.trans h.log_eq
  resolved := by
    intro k fate hk
    rw [hq.fates] at hk
    exact (h.resolved k fate hk).mono hq.feed hq.dlq

theorem Counted.quiet (hq : Quiet w w') (h : Counted log d w) : Counted log d w' :=
  ⟨h.toInHand.quiet hq, h.count.trans hq.delivered.symm⟩

theorem Counted.again_ctx {max : Nat} {site : CtxSite} {err : String} (h : Counted log d w)
    (hsite : site ≠ .loop) (hok : LastOk max w (.ctxErr site) (.fail err)) : d.delivered ≠ max := by
  intro heq
  have hlast : w.delivered = max := h.count.symm.trans heq
  cases site with
  | loop => exact hsite rfl
  | failed | done => cases hok hlast

theorem Counted.again_dlq {max : Nat} {reason : String} {ch : Choice} (h : Counted log d w)
    (hok : LastOk max w (.request (.dlq (d.record reason))) ch) (hch : ch ≠ .go) :
    d.delivered ≠ max :=
  fun heq => hch (hok (h.count.symm.trans heq))

theorem again_of_config {max : Nat} {cfg : Config} (hcfg : cfg.maxDeliver = max)
    (hlt : (d.delivered : Int) < cfg.maxDeliver) : d.delivered ≠ max := by
  intro heq
  omega

theorem Counted.giveBack {max : Nat} (h : Counted log d w) (hagain : d.delivered ≠ max) :
    w.giveBack (some max) d.index = w := by
  have hnot : ¬ some max = some w.delivered := by
    intro heq
    exact hagain (h.count.trans (Option.some.inj heq).symm)
  simp [World.giveBack, hnot]

theorem DeliveryInv.settle (h : DeliveryInv log w) (hd : InHand log d w)
    (hfate : Resolved log w d.index fate) : DeliveryInv log (w.settle d.index fate) := by
  simp only [World.settle, hd.index, if_true]
  refine ⟨h.log_eq, ?_⟩
  intro k fate' hk
  rcases Nat.lt_trichotomy k w.fates.length with hk' | hk' | hk'
  · rw [List.getElem?_append_left hk'] at hk
    exact (h.resolved k fate' hk).mono (fun _ h => h) (fun _ h => h)
  · have hf : fate = fate' := by simpa [hk'] using hk
    have hi : d.index = k := by rw [hk', hd.index, World.cursor]
    rw [← hf, ← hi]
    exact hfate.mono (fun _ h => h) (fun _ h => h)
  · rw [List.getElem?_eq_none (by simp; omega)] at hk
    cases hk

end Invariant

theorem expire_of_ne {max : Nat} {w : World} (h : w.delivered ≠ max) : some max ≠ some w.delivered :=
  fun heq => h (Option.some.inj heq).symm

def deliveryOutline (max : Nat) (log : List Fact) : Outline (some max) where
  okConfig cfg := cfg.maxDeliver = max
  ok := LastOk max
  okExpire w := w.delivered ≠ max
  Inv := DeliveryInv log
  Sendable _ := True
  Head _ _ := True
  Given _ d w := Counted log d w
  Held _ d w := Counted log d w
  Again d := d.delivered ≠ max
  head_quiet := fun _ _ => trivial
  given_quiet := fun hq h => h.quiet hq
  held_quiet := fun hq h => h.quiet hq
  serve := fun _ h => h.quiet (quiet_serve _ _)
  send := fun _ h => h.quiet (quiet_send _ _)
  arrive := fun h _ => h.quiet (quiet_serve _ _)
  expire := expire_of_ne
  hydrated := fun _ _ _ => trivial
  delivered := by
    intro st w f hinv _ hf _
    rw [hinv.log_eq] at hf
    refine ⟨⟨hinv.log_eq, ?_⟩, ⟨rfl, hf⟩, rfl⟩
    intro k fate hk
    exact (hinv.resolved k fate hk).mono (fun _ h => h) (fun _ h => h)
  malformed := fun h _ => h
  applied := fun h _ _ => h
  publish := fun _ _ _ _ => trivial
  tombstone := fun _ _ _ _ => trivial
  dlq := fun _ _ => trivial
  save := fun _ _ => trivial
  head_of_held := fun _ => trivial
  acked := by
    intro st d w e hinv hheld _ he hpub
    exact ⟨hinv.settle hheld.toInHand (.inl ⟨_, d.fact, e, rfl, hheld.fact, he, hpub⟩), trivial⟩
  deadLettered := by
    intro st d w reason hinv hheld hrecord
    exact ⟨hinv.settle hheld.toInHand (.inr ⟨d, reason, rfl, hheld.fact, hrecord⟩), trivial⟩
  givenBack := by
    intro st d w hinv hheld hagain
    rw [hheld.giveBack hagain]
    exact ⟨hinv, trivial⟩
  again_config := again_of_config
  again_ctx := fun hheld hsite hok => hheld.again_ctx hsite hok
  again_dlq := fun hheld hok hch => hheld.again_dlq hok hch

/-- In every run in which the last permitted delivery of a fact is answered, with a context that has
not ended and a dead-letter queue that is available, every fact that is no longer delivered was acked
after the publishes to all agents its view covers and its tombstone, or has a dead-letter record. -/
theorem delivery_resolved {max : Nat} {log : List Fact}
    {c : Takeover.Config Ans Worker World Unit}
    (h : Takeover.Reachable (machine (some max)) run (deliveryPolicy max) (World.start log) c)
    {k : Nat} {fate : Fate} (hk : c.world.fates[k]? = some fate) :
    (∃ view f e, fate = .acked (some view) ∧ log[k]? = some f ∧ f.event = some e ∧
        Published c.world e f.iid view) ∨
      ∃ (d : Delivery) (reason : String), d.index = k ∧ log[k]? = some d.fact ∧
        d.record reason ∈ c.world.dlq := by
  have hstart : DeliveryInv log (World.start log) := ⟨rfl, by simp [World.start]⟩
  have hinv : DeliveryInv log c.world := (deliveryOutline max log).sound hstart h
  exact hinv.resolved k fate hk

/-! ## Runs that drop a fact, and runs that do not -/

abbrev sameBound (max : Nat) : Policy Op Worker World Choice Tick where
  spawn worker := worker.cfg.withDefaults.maxDeliver = max
  op _ _ _ _ := True
  tick _ t := t ≠ .expire

namespace Scenario

def impatient : Worker where
  cfg := ⟨2, 50, 1⟩
  turns := 4

def failing : List Choice :=
  [.go, .listed ["alice"], .go, .fail "timeout", .go]

/-- Both deliveries of the join fail; on the second one the dead-letter queue answers with `dlq`, and
the fact is acked or given back. -/
def exhausted (dlq : Choice) : Schedule :=
  .takeover impatient :: acts (hydration none ++ failing ++ .go :: failing ++ [dlq, .go])

end Scenario

instance (t : Tick) : Decidable (t = .expire) :=
  match t with
  | .arrive _ => .isFalse nofun
  | .expire => .isTrue rfl

open Scenario in
/-- When the dead-letter queue is unavailable on the last permitted delivery, the fact is dropped
without an ack and without a record. -/
theorem delivery_dropped : ∃ c : Takeover.Config Ans Worker World Unit,
    Takeover.Reachable (machine (some 2)) run (sameBound 2) (World.start shortLog) c ∧
      c.world.fates[0]? = some .dropped ∧ c.world.dlq = [] := by
  have hrun : (Takeover.run (machine (some 2)) run (sameBound 2) (exhausted (.fail "timeout"))
      ⟨World.start shortLog, none⟩).map (fun c => (c.world.fates[0]?, c.world.dlq)) =
        some (some .dropped, []) := by
    decide +kernel
  rcases Takeover.exists_of_run hrun with ⟨c, hc, hval⟩
  rcases Prod.mk.inj hval with ⟨hfate, hdlq⟩
  exact ⟨c, hc, hfate, hdlq⟩

section Decidable

variable (max : Nat)

def Choice.isGo : Choice → Bool
  | .go => true
  | .fail _ | .lost _ | .late _ | .listed _ | .found _ => false

theorem Choice.isGo_iff {ch : Choice} : ch.isGo = true ↔ ch = .go := by
  cases ch <;> simp [Choice.isGo]

instance instDecidableAnswered (w : World) (ch : Choice) :
    Decidable (w.delivered = max → ch = .go) :=
  have : Decidable (ch = .go) := decidable_of_iff (ch.isGo = true) Choice.isGo_iff
  inferInstance

instance (w : World) (op : Op) (ch : Choice) : Decidable (LastOk max w op ch) :=
  match op with
  | .ctxErr .failed | .ctxErr .done | .request (.dlq _) =>
    instDecidableAnswered max w ch
  | .ctxErr .loop | .request (.publish _) | .request (.save ..) | .ackFloor | .load _
  | .foldRange .. | .deliver | .agents _ | .marshal _ | .backoff | .ack .. | .nak _ =>
    .isTrue trivial

end Decidable

open Scenario in
theorem delivery_resolved_exhausted : ∃ c : Takeover.Config Ans Worker World Unit,
    Takeover.Reachable (machine (some 2)) run (deliveryPolicy 2) (World.start shortLog) c ∧
      ∃ fate, c.world.fates[0]? = some fate ∧
        ((∃ view f e, fate = .acked (some view) ∧ shortLog[0]? = some f ∧ f.event = some e ∧
            Published c.world e f.iid view) ∨
          ∃ (d : Delivery) (reason : String), d.index = 0 ∧ shortLog[0]? = some d.fact ∧
            d.record reason ∈ c.world.dlq) := by
  have hrun : (Takeover.run (machine (some 2)) run (deliveryPolicy 2) (exhausted .go)
      ⟨World.start shortLog, none⟩).map (fun c => c.world.fates[0]?) =
        some (some (.acked none)) := by
    decide +kernel
  rcases Takeover.exists_of_run hrun with ⟨c, hc, hfate⟩
  exact ⟨c, hc, .acked none, hfate, delivery_resolved hc hfate⟩

end RelayPoint.Projector
