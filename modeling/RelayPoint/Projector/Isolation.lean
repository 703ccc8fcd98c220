import RelayPoint.Projector.Delivery
import RelayPoint.Signaling.Isolation

/-!
# Isolation — interactions that share the projector but no view

The projector keeps its views under the same keys as the router its states.  Over a log in which no
other interaction has the key of `(t, i)`, the recipients of a fact of `(t, i)` are decided by the
facts of `(t, i)` alone (`audience`), whatever else is in the log, whatever fails and whoever takes
over, as long as the consumer gives no fact up.
-/

namespace RelayPoint.Projector

open Concurrency Signaling

/-! ## The facts of one interaction -/

def audience (events : List Event) (n : Nat) (agent : String) : Bool :=
  match events[n]? with
  | none => false
  | some e =>
    covered ((ParticipationView.fold (events.take (n + 1))).intervalsOf agent) e.sequence

structure FactAt (log : List Fact) (t i : String) (n k : Nat) (e : Event) : Prop where
  fact : ∃ f, log[k]? = some f ∧ f.event = some e ∧ f.iid = i
  tenant : e.tenantId = t
  rank : (eventsOf (log.take k) t i).length = n

def Clear (t i : String) (log : List Fact) : Prop :=
  ∀ f ∈ log, ∀ e, f.event = some e → (e.tenantId, f.iid) ≠ (t, i) →
    Separate t i e.tenantId f.iid

section Facts

variable {log : List Fact} {t i : String} {f : Fact} {e : Event} {k n : Nat}

theorem viewKey_eq (e : Event) (iid : String) : viewKey e iid = stateKey e.tenantId iid :=
  rfl

theorem Clear.key (h : Clear t i log) (hf : f ∈ log) (he : f.event = some e)
    (hkey : viewKey e f.iid = stateKey t i) : e.tenantId = t ∧ f.iid = i := by
  by_contra hne
  have hpair : (e.tenantId, f.iid) ≠ (t, i) := fun heq => hne (Prod.mk.inj heq)
  exact stateKey_ne (h f hf e he hpair) hpair hkey

theorem Clear.subset (h : Clear t i log) {facts : List Fact} (hsub : facts ⊆ log) :
    Clear t i facts :=
  fun f hf => h f (hsub hf)

theorem Clear.eventsAt (h : Clear t i log) : eventsAt log (stateKey t i) = eventsOf log t i := by
  apply List.filterMap_congr
  intro f hf
  cases he : f.event with
  | none => rfl
  | some e =>
    have hiff : viewKey e f.iid = stateKey t i ↔ e.tenantId = t ∧ f.iid = i := by
      constructor
      · exact h.key hf he
      · rintro ⟨rfl, rfl⟩
        rfl
    simp only [hiff, Option.filter]

theorem eventsOf_append (facts later : List Fact) :
    eventsOf (facts ++ later) t i = eventsOf facts t i ++ eventsOf later t i := by
  simp [eventsOf]

theorem eventsOf_singleton (he : f.event = some e) (ht : e.tenantId = t) (hi : f.iid = i) :
    eventsOf [f] t i = [e] := by
  simp [eventsOf, he, ht, hi, Option.filter]

theorem FactAt.take (h : FactAt log t i n k e) :
    eventsOf (log.take (k + 1)) t i = (eventsOf log t i).take (n + 1) := by
  rcases h.fact with ⟨f, hf, he, hi⟩
  have hnext : eventsOf (log.take (k + 1)) t i = eventsOf (log.take k) t i ++ [e] := by
    rw [take_concat hf, eventsOf_append, eventsOf_singleton he h.tenant hi]
  have hsplit : eventsOf log t i =
      eventsOf (log.take (k + 1)) t i ++ eventsOf (log.drop (k + 1)) t i := by
    rw [← eventsOf_append, List.take_append_drop]
  have hlen : (eventsOf (log.take (k + 1)) t i).length = n + 1 := by
    rw [hnext, List.length_append, h.rank]
    rfl
  rw [hsplit, ← hlen, List.take_left]

theorem FactAt.getElem? (h : FactAt log t i n k e) : (eventsOf log t i)[n]? = some e := by
  rcases h.fact with ⟨f, hf, he, hi⟩
  have hlast : (eventsOf (log.take (k + 1)) t i)[n]? = some e := by
    rw [take_concat hf, eventsOf_append, eventsOf_singleton he h.tenant hi, ← h.rank]
    simp
  rw [h.take] at hlast
  rw [← hlast, List.getElem?_take_of_lt (Nat.lt_succ_self n)]

theorem FactAt.audience (h : FactAt log t i n k e) (a : String) :
    audience (eventsOf log t i) n a =
      covered ((ParticipationView.fold (eventsOf (log.take (k + 1)) t i)).intervalsOf a)
        e.sequence := by
  simp only [Projector.audience, h.getElem?, h.take]

end Facts

/-! ## The invariant -/

def Aimed (log : List Fact) (t i : String) (m : FeedMsg) : Prop :=
  ∀ e a, m = eventMsg e i a → e.tenantId = t →
    ∃ n, (eventsOf log t i)[n]? = some e ∧ audience (eventsOf log t i) n a = true

def FaithfulAt (key : String) (log : List Fact) (seq : Nat) (snap : Snapshot) : Prop :=
  ∃ k f, log[k]? = some f ∧ f.streamSeq = seq ∧
    State.FoldsAt key (State.new.restore (some snap)) (log.take (k + 1))

def IsolationSendable (log : List Fact) (t i : String) : Request → Prop
  | .publish m => Aimed log t i m
  | .dlq _ => True
  | .save seq snap => FaithfulAt (stateKey t i) log seq snap

/-- The recipients of an acked fact of the interaction are its audience, and each has it. -/
def ReachesAudience (log : List Fact) (t i : String) (w : World) (k : Nat)
    (view : ParticipationView) : Prop :=
  ∀ n e, FactAt log t i n k e → ∀ a,
    covered (view.intervalsOf a) e.sequence = audience (eventsOf log t i) n a ∧
      (audience (eventsOf log t i) n a = true → Stored w (eventID t a i e.sequence))

structure IsolationInv (log : List Fact) (t i : String) (w : World) : Prop where
  log_eq : w.log = log
  cursor_le : w.cursor ≤ log.length
  kept : ∀ fate ∈ w.fates, fate ≠ .dropped
  snaps : ∀ s ∈ w.snaps, FaithfulAt (stateKey t i) log s.1 s.2
  sent : ∀ r ∈ w.sent, IsolationSendable log t i r
  acked : ∀ (k : Nat) (view : ParticipationView), w.fates[k]? = some (.acked (some view)) →
    ReachesAudience log t i w k view

section Invariant

variable {log : List Fact} {t i : String} {w w' : World} {r : Request} {d : Delivery} {st : State}

theorem isolationInv_start : IsolationInv log t i (World.start log) where
  log_eq := rfl
  cursor_le := Nat.zero_le _
  kept := by simp [World.start]
  snaps := by simp [World.start]
  sent := by simp [World.start]
  acked := by simp [World.start]

theorem ReachesAudience.quiet {k : Nat} {view : ParticipationView}
    (h : ReachesAudience log t i w k view) (hfeed : w.feed ⊆ w'.feed) :
    ReachesAudience log t i w' k view := by
  intro n e hk a
  rcases h n e hk a with ⟨heq, hstored⟩
  refine ⟨heq, fun ha => ?_⟩
  rcases hstored ha with ⟨m, hm, hid⟩
  exact ⟨m, hfeed hm, hid⟩

theorem IsolationInv.quiet (h : IsolationInv log t i w) (hq : Quiet w w')
    (hsnaps : ∀ s ∈ w'.snaps, FaithfulAt (stateKey t i) log s.1 s.2)
    (hsent : ∀ r ∈ w'.sent, IsolationSendable log t i r) : IsolationInv log t i w' where
  log_eq := hq.log.trans h.log_eq
  cursor_le := by simpa [World.cursor, hq.fates] using h.cursor_le
  kept := by simpa [hq.fates] using h.kept
  snaps := hsnaps
  sent := hsent
  acked := by
    intro k view hk
    rw [hq.fates] at hk
    exact (h.acked k view hk).quiet hq.feed

theorem mem_snaps_serve {s : Nat × Snapshot} (hs : s ∈ (w.serve r).snaps) :
    s ∈ w.snaps ∨ r = .save s.1 s.2 := by
  cases r with
  | publish m =>
    by_cases hm : m.dedup ∈ w.feed.map FeedMsg.dedup
    all_goals exact .inl (by simpa [World.serve, hm] using hs)
  | dlq r => exact .inl hs
  | save seq snap =>
    rcases List.mem_append.1 hs with hs | hs
    · exact .inl hs
    · rw [List.mem_singleton.1 hs]
      exact .inr rfl

theorem IsolationInv.serve (hr : IsolationSendable log t i r) (h : IsolationInv log t i w) :
    IsolationInv log t i (w.serve r) := by
  refine h.quiet (quiet_serve w r) ?_ (by simpa [sent_serve] using h.sent)
  intro s hs
  rcases mem_snaps_serve hs with hs | rfl
  · exact h.snaps s hs
  · exact hr

theorem IsolationInv.send (hr : IsolationSendable log t i r) (h : IsolationInv log t i w) :
    IsolationInv log t i (w.send r) := by
  refine h.quiet (quiet_send w r) h.snaps ?_
  intro r' hr'
  rcases List.mem_append.1 hr' with hr' | hr'
  · exact h.sent r' hr'
  · rw [List.mem_singleton.1 hr']
    exact hr

theorem IsolationInv.settle (h : IsolationInv log t i w) (hd : InHand log d w)
    {view : Option ParticipationView}
    (hview : ∀ v, view = some v → ReachesAudience log t i w d.index v) :
    IsolationInv log t i (w.settle d.index (.acked view)) := by
  have hlt : d.index < log.length := (List.getElem?_eq_some_iff.1 hd.fact).1
  simp only [World.settle, hd.index, if_true]
  refine ⟨h.log_eq, ?_, ?_, h.snaps, h.sent, ?_⟩
  · simp only [World.cursor, List.length_append, List.length_cons, List.length_nil]
    have := hd.index
    unfold World.cursor at this
    omega
  · intro fate hfate
    rcases List.mem_append.1 hfate with hfate | hfate
    · exact h.kept fate hfate
    · rw [List.mem_singleton.1 hfate]
      simp
  · intro k v hk
    rcases Nat.lt_trichotomy k w.fates.length with hk' | hk' | hk'
    · rw [List.getElem?_append_left hk'] at hk
      exact h.acked k v hk
    · have hv : view = some v := by simpa [hk'] using hk
      have hi : d.index = k := by rw [hk', hd.index, World.cursor]
      rw [← hi]
      exact hview v hv
    · rw [List.getElem?_eq_none (by simp; omega)] at hk
      cases hk

/-- The view of the interaction folds the log up to the cursor, and possibly the fact in flight. -/
def ViewAtCursor (key : String) (log : List Fact) (st : State) (w : World) : Prop :=
  State.FoldsAt key st (log.take w.cursor) ∨ State.FoldsAt key st (log.take (w.cursor + 1))

theorem ViewAtCursor.quiet {key : String} (hq : Quiet w w') (h : ViewAtCursor key log st w) :
    ViewAtCursor key log st w' := by
  simpa [ViewAtCursor, World.cursor, hq.fates] using h

theorem ViewAtCursor.apply {key : String} (h : ViewAtCursor key log st w) (hd : InHand log d w)
    {e : Event} (he : d.fact.event = some e) :
    State.FoldsAt key (st.applyEvent e d.fact.iid) (log.take (d.index + 1)) := by
  have happly : st.applyEvent e d.fact.iid = st.applyFact d.fact := by
    simp [State.applyFact, he]
  rw [happly, take_concat hd.fact, hd.index]
  rcases h with h | h
  · exact h.next d.fact
  · rw [take_concat (hd.index ▸ hd.fact)] at h
    exact h.again

theorem ViewAtCursor.malformed (hclear : Clear t i log) (ht : t ≠ "") (hi : i ≠ "")
    (h : ViewAtCursor (stateKey t i) log st w) (hd : InHand log d w) (hbad : ¬ d.fact.WellFormed) :
    State.FoldsAt (stateKey t i) st (log.take (d.index + 1)) := by
  rcases h with h | h
  · intro a
    rw [h a, take_concat hd.fact, ← hd.index]
    by_cases hkey : ∃ e, d.fact.event = some e ∧ viewKey e d.fact.iid = stateKey t i
    · rcases hkey with ⟨e, he, hkey⟩
      rcases hclear.key (List.mem_of_getElem? hd.fact) he hkey with ⟨rfl, rfl⟩
      have hempty : e.eventType = "" := by
        by_contra htype
        exact hbad ⟨e, he, ht, htype, hi⟩
      rw [← hkey, eventsAt_concat_self he, ParticipationView.fold_concat,
        ParticipationView.intervalsOf_applyFact]
      simp [ParticipationView.stepIntervals, hempty]
    · rw [eventsAt_concat_other fun e he hk => hkey ⟨e, he, hk⟩]
  · rw [hd.index]
    exact h

theorem covered_audience (hclear : Clear t i log) {e : Event} {n : Nat}
    (hst : State.FoldsAt (stateKey t i) st (log.take (d.index + 1)))
    (hk : FactAt log t i n d.index e) (a : String) :
    covered ((st.view (stateKey t i)).intervalsOf a) e.sequence =
      audience (eventsOf log t i) n a := by
  rw [hst a, hk.audience, (hclear.subset (List.take_subset _ _)).eventsAt]

end Invariant

/-! ## The outline -/

theorem eventMsg_injective {e e' : Event} {iid iid' a a' : String}
    (h : eventMsg e iid a = eventMsg e' iid' a') : e = e' ∧ iid = iid' ∧ a = a' := by
  simp only [eventMsg, FeedMsg.mk.injEq, Body.event.injEq] at h
  exact ⟨h.2.2.2.2, h.2.2.1, h.2.1⟩

theorem InHand.factAt {log : List Fact} {w : World} {d : Delivery} {e : Event} (h : InHand log d w)
    (he : d.fact.event = some e) :
    FactAt log e.tenantId d.fact.iid (eventsOf (log.take d.index) e.tenantId d.fact.iid).length
      d.index e :=
  ⟨⟨d.fact, h.fact, he, rfl⟩, rfl, rfl⟩

/-- The proof outline, for a consumer whose last permitted deliveries are answered. -/
def isolationOutline (max : Nat) (log : List Fact) (t i : String) (hlog : Sequenced log)
    (hclear : Clear t i log) (ht : t ≠ "") (hi : i ≠ "") : Outline (some max) where
  okConfig cfg := cfg.maxDeliver = max
  ok := LastOk max
  okExpire w := w.delivered ≠ max
  Inv := IsolationInv log t i
  Sendable := IsolationSendable log t i
  Head := ViewAtCursor (stateKey t i) log
  Given st d w := Counted log d w ∧ ViewAtCursor (stateKey t i) log st w
  Held st d w := Counted log d w ∧ State.FoldsAt (stateKey t i) st (log.take (d.index + 1))
  Again d := d.delivered ≠ max
  head_quiet := fun hq h => h.quiet hq
  given_quiet := fun hq h => ⟨h.1.quiet hq, h.2.quiet hq⟩
  held_quiet := fun hq h => ⟨h.1.quiet hq, h.2⟩
  serve := fun hr h => h.serve hr
  send := fun hr h => h.send hr
  arrive := fun h hr => h.serve (h.sent _ hr)
  expire := expire_of_ne
  hydrated := by
    intro w snap snapSeq hinv hloaded hle
    refine .inl ?_
    rcases hloaded with ⟨rfl, rfl⟩ | ⟨s, rfl, hs⟩
    · exact hlog.hydrated (n := 0) hinv.log_eq hinv.cursor_le hinv.kept (State.foldsAt_new _)
        (Nat.zero_le _) hle
    · rcases hinv.snaps _ hs with ⟨k, f, hf, rfl, hfold⟩
      have hk : k + 1 ≤ log.length := (List.getElem?_eq_some_iff.1 hf).1
      rw [← floorOf_succ hf] at hle ⊢
      exact hlog.hydrated hinv.log_eq hinv.cursor_le hinv.kept hfold hk hle
  delivered := by
    intro st w f hinv hhead hf _
    rw [hinv.log_eq] at hf
    exact ⟨⟨hinv.log_eq, hinv.cursor_le, hinv.kept, hinv.snaps, hinv.sent, hinv.acked⟩,
      ⟨⟨rfl, hf⟩, rfl⟩, hhead⟩
  malformed := fun hgiven hbad =>
    ⟨hgiven.1, hgiven.2.malformed hclear ht hi hgiven.1.toInHand hbad⟩
  applied := fun hgiven _ he => ⟨hgiven.1, hgiven.2.apply hgiven.1.toInHand he⟩
  publish := by
    intro st d w e a hheld _ he hcov e' a' hmsg htenant
    rcases eventMsg_injective hmsg with ⟨rfl, hiid, rfl⟩
    have hk := hheld.1.toInHand.factAt he
    rw [htenant, hiid] at hk
    rw [viewKey_eq, htenant, hiid, covered_audience hclear hheld.2 hk] at hcov
    exact ⟨_, hk.getElem?, hcov⟩
  tombstone := by
    intro st d w e _ _ _ _ e' a hmsg _
    simp [tombstoneMsg, eventMsg] at hmsg
  dlq := fun _ _ => trivial
  save := fun hheld _ => ⟨_, _, hheld.1.fact, rfl, hheld.2.restore⟩
  head_of_held := by
    intro st d w hheld
    refine .inr ?_
    rw [← hheld.1.index]
    exact hheld.2
  acked := by
    intro st d w e hinv hheld _ he hpub
    refine ⟨hinv.settle hheld.1.toInHand ?_, .inl ?_⟩
    · rintro v hv n e' hk a
      cases hv
      rcases hk.fact with ⟨f, hf, he', hiid⟩
      cases hheld.1.fact.symm.trans hf
      cases he.symm.trans he'
      have hcov := covered_audience hclear hheld.2 hk a
      rw [viewKey_eq, hk.tenant, hiid]
      refine ⟨hcov, fun ha => ?_⟩
      have hstored := hpub.covered a (by rw [viewKey_eq, hk.tenant, hiid, hcov, ha])
      rwa [hk.tenant, hiid] at hstored
    · simpa [World.settle, World.cursor, hheld.1.index] using hheld.2
  deadLettered := by
    intro st d w reason hinv hheld _
    refine ⟨hinv.settle hheld.1.toInHand (by simp), .inl ?_⟩
    simpa [World.settle, World.cursor, hheld.1.index] using hheld.2
  givenBack := by
    intro st d w hinv hheld hagain
    rw [hheld.1.giveBack hagain]
    refine ⟨hinv, .inr ?_⟩
    rw [← hheld.1.index]
    exact hheld.2
  again_config := again_of_config
  again_ctx := fun hheld hsite hok => hheld.1.again_ctx hsite hok
  again_dlq := fun hheld hok hch => hheld.1.again_dlq hok hch

/-! ## Runs -/

def Publishes (c : Takeover.Config Ans Worker World Unit) (m : FeedMsg) : Prop :=
  ∃ th next, c.worker = some th ∧ th.prog = .call (.request (.publish m)) next

/-- The agents to whom the fact at position `k`, which holds the event `e`, was published before it was
acked; `none` if it was not acked yet, or went to the dead-letter queue. -/
def World.recipients (w : World) (k : Nat) (e : Event) : Option (String → Bool) :=
  match w.fates[k]? with
  | some (.acked (some view)) => some fun a => covered (view.intervalsOf a) e.sequence
  | _ => none

section Runs

variable {max : Nat} {log : List Fact} {t i : String} {c : Takeover.Config Ans Worker World Unit}

theorem isolated (hlog : Sequenced log) (hclear : Clear t i log) (ht : t ≠ "") (hi : i ≠ "")
    (h : Takeover.Reachable (machine (some max)) run (deliveryPolicy max) (World.start log) c) :
    IsolationInv log t i c.world :=
  (isolationOutline max log t i hlog hclear ht hi).sound isolationInv_start h

theorem aimed_of_publishes (hlog : Sequenced log) (hclear : Clear t i log) (ht : t ≠ "")
    (hi : i ≠ "")
    (h : Takeover.Reachable (machine (some max)) run (deliveryPolicy max) (World.start log) c)
    {m : FeedMsg} (hm : Publishes c m) : Aimed log t i m := by
  rcases hm with ⟨th, next, hth, hprog⟩
  have hstep : Takeover.step (machine (some max)) run c (.act (.late "")) =
      some ⟨c.world.send (.publish m), some { th with prog := next (some "") }⟩ := by
    simp only [Takeover.step, hth, hprog]
    rfl
  have hallowed : Takeover.Allowed (deliveryPolicy max) c (.act (.late "")) := by
    simp only [Takeover.Allowed, hth, hprog]
    trivial
  have hinv := isolated hlog hclear ht hi (h.tail hallowed hstep)
  exact hinv.sent (.publish m) (by simp [World.send])

theorem recipients_eq (hlog : Sequenced log) (hclear : Clear t i log) (ht : t ≠ "") (hi : i ≠ "")
    (h : Takeover.Reachable (machine (some max)) run (deliveryPolicy max) (World.start log) c)
    {n k : Nat} {e : Event} {recipients : String → Bool} (hk : FactAt log t i n k e)
    (hr : c.world.recipients k e = some recipients) (a : String) :
    recipients a = audience (eventsOf log t i) n a ∧
      (recipients a = true → Stored c.world (eventID t a i e.sequence)) := by
  unfold World.recipients at hr
  split at hr
  · next view hview =>
      cases hr
      rcases (isolated hlog hclear ht hi h).acked k view hview n e hk a with ⟨heq, hstored⟩
      exact ⟨heq, fun ha => hstored (heq ▸ ha)⟩
  · cases hr

end Runs

/-! ## The two components -/

/-- Separate interactions are kept apart.  They have different keys.  In serial runs of a router that
have the same calls on `(t, i)`, the replies to these calls and the facts of `(t, i)` are the same.
And over logs that have the same events of `(t, i)`, the projector publishes them to the same agents:
whoever it is about to publish one to is among the recipients in every run that has completed the
fan-out of that fact, and any two such runs agree on the recipients. -/
theorem interaction_isolation (t i : String) :
    (∀ t' i', (t', i') ≠ (t, i) → Separate t i t' i' → stateKey t' i' ≠ stateKey t i ∧
      ∀ e e' : Event, e.tenantId = t → e'.tenantId = t' → viewKey e' i' ≠ viewKey e i) ∧
    (∀ subject suffix, parseCmdSubject subject = some (t, i, suffix) →
      ∀ (r : Router) (turns turns' : List Turn) (out out' : List (Call × CommandResult))
        (w w' : Signaling.World),
        Apart t i (callsOf turns) → Apart t i (callsOf turns') →
        (callsOf turns).filter (Call.on t i) = (callsOf turns').filter (Call.on t i) →
        serveTurns r turns Signaling.World.start = some (out, w) →
        serveTurns r turns' Signaling.World.start = some (out', w') →
        out.filter (fun reply => reply.1.on t i) = out'.filter (fun reply => reply.1.on t i) ∧
          (factsOf w.broker (logSubjectFor t i)).map (fun f => f.event.anonymous) =
            (factsOf w'.broker (logSubjectFor t i)).map (fun f => f.event.anonymous)) ∧
    (t ≠ "" → i ≠ "" →
      ∀ (max : Nat) (log log' : List Fact) (c c' : Takeover.Config Ans Worker World Unit),
        Sequenced log → Sequenced log' → Clear t i log → Clear t i log' →
        eventsOf log t i = eventsOf log' t i →
        Takeover.Reachable (machine (some max)) run (deliveryPolicy max) (World.start log) c →
        Takeover.Reachable (machine (some max)) run (deliveryPolicy max) (World.start log') c' →
        (∀ e a, Publishes c (eventMsg e i a) → e.tenantId = t →
          ∃ n, (eventsOf log t i)[n]? = some e ∧ ∀ k' recipients', FactAt log' t i n k' e →
            c'.world.recipients k' e = some recipients' → recipients' a = true) ∧
        ∀ n k k' e recipients recipients', FactAt log t i n k e → FactAt log' t i n k' e →
          c.world.recipients k e = some recipients → c'.world.recipients k' e = some recipients' →
          recipients = recipients' ∧
            ∀ a, recipients a = true → Stored c.world (eventID t a i e.sequence)) := by
  refine ⟨?_, ?_, ?_⟩
  · intro t' i' hne hsep
    have hkey := stateKey_ne hsep hne
    refine ⟨hkey, ?_⟩
    rintro e e' rfl rfl
    exact hkey
  · intro subject suffix hadmitted r turns turns' out out' w w' hapart hapart' hcalls hrun hrun'
    have hdots := parseCmdSubject_dotFree hadmitted
    have hview := serveTurns_refines hdots.1 hdots.2 hapart Outline.WorldInv.start refines_start hrun
    have hview' := serveTurns_refines hdots.1 hdots.2 hapart' Outline.WorldInv.start refines_start hrun'
    rw [← hcalls] at hview'
    exact ⟨hview.1.trans hview'.1.symm, hview.2.facts.trans hview'.2.facts.symm⟩
  · intro ht hi max log log' c c' hlog hlog' hclear hclear' hevents hreach hreach'
    refine ⟨?_, ?_⟩
    · intro e a hpub htenant
      rcases aimed_of_publishes hlog hclear ht hi hreach hpub e a rfl htenant with ⟨n, hn, haud⟩
      refine ⟨n, hn, ?_⟩
      intro k' recipients' hk' hr'
      rw [(recipients_eq hlog' hclear' ht hi hreach' hk' hr' a).1, ← hevents]
      exact haud
    · intro n k k' e recipients recipients' hk hk' hr hr'
      have hsame := recipients_eq hlog hclear ht hi hreach hk hr
      have hsame' := recipients_eq hlog' hclear' ht hi hreach' hk' hr'
      refine ⟨funext fun a => ?_, fun a => (hsame a).2⟩
      rw [(hsame a).1, (hsame' a).1, hevents]

/-! ## A collision, and neighbours that do not collide -/

namespace Scenario

def opening (t i : String) : Call where
  router := ⟨1, false, 8, 2⟩
  id := ⟨t, "desk", roleTrustedBackend, ""⟩
  subject := "tenant." ++ t ++ ".interaction." ++ i ++ ".cmd.desk"
  data := some ⟨"s", t, "desk", "interaction.started", "", "", []⟩
  json := none

def opened (t i : String) : Turn :=
  .command (opening t i)
    (List.replicate 7 .go ++ [.name "e", .time 0, .go] ++ [.go])

def refused (t i : String) : Turn :=
  .command (opening t i) [.go, .go, .go]

end Scenario

open Scenario in
/-- The interaction `c` of the tenant `a/b` has the key of the interaction `b/c` of the tenant `a`.
Once it is started, the start of the other one is rejected. -/
theorem interaction_collision :
    stateKey "a/b" "c" = stateKey "a" "b/c" ∧
    ∃ (r : Router) (turns turns' : List Turn) (out out' : List (Call × CommandResult))
      (w w' : Signaling.World) (subject suffix : String),
      parseCmdSubject subject = some ("a", "b/c", suffix) ∧
      (callsOf turns).filter (Call.on "a" "b/c") = (callsOf turns').filter (Call.on "a" "b/c") ∧
      serveTurns r turns Signaling.World.start = some (out, w) ∧
      serveTurns r turns' Signaling.World.start = some (out', w') ∧
      out.filter (fun reply => reply.1.on "a" "b/c") ≠
        out'.filter (fun reply => reply.1.on "a" "b/c") := by
  have halone : (serveTurns (opening "a" "b/c").router [opened "a" "b/c"]
      Signaling.World.start).map (fun run => run.1.map fun reply => reply.2.status) =
        some [.accepted] := by
    decide +kernel
  have hboth : (serveTurns (opening "a" "b/c").router [opened "a/b" "c", refused "a" "b/c"]
      Signaling.World.start).map (fun run =>
        (run.1.filter fun reply => reply.1.on "a" "b/c").map fun reply => reply.2.status) =
        some [.rejected] := by
    decide +kernel
  rcases Option.map_eq_some_iff.1 halone with ⟨⟨out, w⟩, hrun, hout⟩
  rcases Option.map_eq_some_iff.1 hboth with ⟨⟨out', w'⟩, hrun', hout'⟩
  refine ⟨by decide, _, _, _, out, out', w, w', (opening "a" "b/c").subject, "desk", by decide +kernel,
    by decide +kernel, hrun, hrun', ?_⟩
  intro heq
  have hsub : ((out.filter fun reply => reply.1.on "a" "b/c").map fun reply => reply.2.status) ⊆
      out.map fun reply => reply.2.status :=
    List.map_subset _ (List.filter_subset_self _)
  rw [heq] at hsub
  have hmem := hsub (by rw [hout']; exact List.mem_singleton.2 rfl)
  rw [hout] at hmem
  cases List.mem_singleton.1 hmem

namespace Scenario

def neighbour : Fact :=
  { fact 4 "participant.joined" "carol" with iid := "j" }

theorem sequenced_neighbour : Sequenced (shortLog ++ [neighbour]) where
  streamSeqs := by simp [shortLog, fact, neighbour]
  positive := by simp [shortLog, fact, neighbour]

def message : Event :=
  (fact 2 "message" "bob").event.get rfl

def undisturbed : Schedule :=
  .takeover worker :: acts (hydration none ++ joinRepeated ++ messageSent ++ finished)

end Scenario

open Scenario in
/-- The neighbours `i` and `j` of one tenant: the start of `j` changes nothing for `i`, and neither does
a join in `j`. -/
theorem interaction_isolation_neighbours :
    (∃ (out out' : List (Call × CommandResult)) (w w' : Signaling.World),
      serveTurns (opening "t" "i").router [opened "t" "i"] Signaling.World.start = some (out, w) ∧
      serveTurns (opening "t" "i").router [opened "t" "j", opened "t" "i"] Signaling.World.start =
        some (out', w') ∧
      out.filter (fun reply => reply.1.on "t" "i") = out'.filter (fun reply => reply.1.on "t" "i")) ∧
    ∃ (c c' : Takeover.Config Ans Worker World Unit) (e : Event) (recipients recipients' : String → Bool),
      Takeover.Reachable (machine (some 5)) run (deliveryPolicy 5) (World.start shortLog) c ∧
      Takeover.Reachable (machine (some 5)) run (deliveryPolicy 5)
        (World.start (shortLog ++ [neighbour])) c' ∧
      c.world.recipients 1 e = some recipients ∧ c'.world.recipients 1 e = some recipients' ∧
      recipients "alice" = true ∧ recipients = recipients' := by
  have hisolated := interaction_isolation "t" "i"
  have hsep := separate_of_slashless (t := "t") (i := "i") (by decide) (by decide)
  refine ⟨?_, ?_⟩
  · have hone : (serveTurns (opening "t" "i").router [opened "t" "i"]
        Signaling.World.start).isSome = true := by
      decide +kernel
    have htwo : (serveTurns (opening "t" "i").router [opened "t" "j", opened "t" "i"]
        Signaling.World.start).isSome = true := by
      decide +kernel
    rcases Option.isSome_iff_exists.1 hone with ⟨⟨out, w⟩, hrun⟩
    rcases Option.isSome_iff_exists.1 htwo with ⟨⟨out', w'⟩, hrun'⟩
    refine ⟨out, out', w, w', hrun, hrun', ?_⟩
    exact (hisolated.2.1 (opening "t" "i").subject "desk" (by decide +kernel) _ _ _ out out' w w'
      (fun _ _ p _ _ => hsep p.1 p.2) (fun _ _ p _ _ => hsep p.1 p.2) (by decide +kernel) hrun hrun').1
  · have hone : (Takeover.run (machine (some 5)) run (deliveryPolicy 5) undisturbed
        ⟨World.start shortLog, none⟩).map (fun c =>
          (c.world.recipients 1 message).map fun recipients => recipients "alice") =
        some (some true) := by
      decide +kernel
    have htwo : (Takeover.run (machine (some 5)) run (deliveryPolicy 5) undisturbed
        ⟨World.start (shortLog ++ [neighbour]), none⟩).map (fun c =>
          (c.world.recipients 1 message).isSome) = some true := by
      decide +kernel
    rcases Takeover.exists_of_run hone with ⟨c, hc, hr⟩
    rcases Takeover.exists_of_run htwo with ⟨c', hc', hr'⟩
    rcases Option.map_eq_some_iff.1 hr with ⟨recipients, hrecipients, halice⟩
    rcases Option.isSome_iff_exists.1 hr' with ⟨recipients', hrecipients'⟩
    have hclear : ∀ log, Clear "t" "i" log := fun _ _ _ _ _ _ => hsep _ _
    have hfact : FactAt shortLog "t" "i" 1 1 message := ⟨⟨_, rfl, rfl, rfl⟩, rfl, by decide +kernel⟩
    have hfact' : FactAt (shortLog ++ [neighbour]) "t" "i" 1 1 message :=
      ⟨⟨_, rfl, rfl, rfl⟩, rfl, by decide +kernel⟩
    have hsame := (hisolated.2.2 (by decide) (by decide) 5 _ _ c c' orderly_shortLog.sequenced
      sequenced_neighbour (hclear _) (hclear _) (by decide +kernel) hc hc').2 1 1 1 message
      recipients recipients' hfact hfact' hrecipients hrecipients'
    exact ⟨c, c', message, recipients, recipients', hc, hc', hrecipients, hrecipients', halice, hsame.1⟩

end RelayPoint.Projector
