import RelayPoint.Projector.Execution

/-!
# Fanout — every participant gets every fact of its membership, once

The feed is right across publish failures, redeliveries, crashes and takeovers.  Three facts carry the
argument.  The worker's state at a delivery folds the log up to that fact, whether it was reached by
processing, by a redelivery or by hydration (`State.Folds`).  Who is covered at a sequence is decided
by the log up to it.  And a dedup id stands for one agent and one fact of the log, so that a publish
that is acked as a duplicate has found its own message.
-/

namespace RelayPoint.Projector

open Concurrency Signaling

/-! ## Logs -/

def eventsOf (log : List Fact) (tenant iid : String) : List Event :=
  log.filterMap fun f => f.event.filter fun e => e.tenantId = tenant ∧ f.iid = iid

/-- A stream numbers its messages from `1`, with gaps where other subjects have theirs. -/
structure Sequenced (log : List Fact) : Prop where
  streamSeqs : log.Pairwise fun f g => f.streamSeq < g.streamSeq
  positive : ∀ f ∈ log, 0 < f.streamSeq

/-- A log as the routers write it: well-formed facts on subjects whose tokens have no dots, with
increasing sequences in each interaction, distinct view keys and increasing stream sequences. -/
structure Orderly (log : List Fact) : Prop where
  wellFormed : ∀ f ∈ log, f.WellFormed
  dotFree : ∀ f ∈ log, ∀ e, f.event = some e → DotFree e.tenantId ∧ DotFree f.iid
  increasing : log.Pairwise fun f g => ∀ e e', f.event = some e → g.event = some e' →
    e.tenantId = e'.tenantId → f.iid = g.iid → e.sequence < e'.sequence
  distinctKeys : ∀ f ∈ log, ∀ g ∈ log, ∀ e e', f.event = some e → g.event = some e' →
    viewKey e f.iid = viewKey e' g.iid → e.tenantId = e'.tenantId ∧ f.iid = g.iid
  streamSeqs : log.Pairwise fun f g => f.streamSeq < g.streamSeq
  positive : ∀ f ∈ log, 0 < f.streamSeq

variable {log : List Fact}

theorem Orderly.sequenced (h : Orderly log) : Sequenced log :=
  ⟨h.streamSeqs, h.positive⟩

theorem eventsAt_append (facts later : List Fact) (key : String) :
    eventsAt (facts ++ later) key = eventsAt facts key ++ eventsAt later key := by
  simp [eventsAt]

variable {e : Event} {f : Fact} {k n : Nat} {w : World}

theorem mem_eventsAt {facts : List Fact} {key : String} (h : e ∈ eventsAt facts key) :
    ∃ f ∈ facts, f.event = some e ∧ viewKey e f.iid = key := by
  rcases List.mem_filterMap.1 h with ⟨f, hf, he⟩
  rcases Option.filter_eq_some_iff.1 he with ⟨he, hkey⟩
  exact ⟨f, hf, he, by simpa using hkey⟩

theorem Orderly.eventsAt_eq (h : Orderly log) (hf : f ∈ log) (he : f.event = some e) :
    eventsAt log (viewKey e f.iid) = eventsOf log e.tenantId f.iid := by
  apply List.filterMap_congr
  intro g hg
  cases hge : g.event with
  | none => rfl
  | some e' =>
    have hiff : viewKey e' g.iid = viewKey e f.iid ↔ e'.tenantId = e.tenantId ∧ g.iid = f.iid := by
      constructor
      · intro hkey
        exact h.distinctKeys g hg f hf e' e hge he hkey
      · rintro ⟨ht, hi⟩
        simp [viewKey, ht, hi]
    simp only [hiff, Option.filter]

theorem Orderly.eq_of_sequence (h : Orderly log) {g : Fact} {e' : Event} (hf : f ∈ log)
    (hg : g ∈ log) (he : f.event = some e) (he' : g.event = some e') (ht : e.tenantId = e'.tenantId)
    (hi : f.iid = g.iid) (hs : e.sequence = e'.sequence) : f = g := by
  rcases List.mem_iff_getElem.1 hf with ⟨m, hm, rfl⟩
  rcases List.mem_iff_getElem.1 hg with ⟨n, hn, rfl⟩
  have hpair := List.pairwise_iff_getElem.1 h.increasing
  rcases Nat.lt_trichotomy m n with hlt | heq | hgt
  · have := hpair m n hm hn hlt e e' he he' ht hi
    omega
  · simp [heq]
  · have := hpair n m hn hm hgt e' e he' he ht.symm hi.symm
    omega

theorem take_concat (h : log[k]? = some f) : log.take (k + 1) = log.take k ++ [f] := by
  simp [List.take_add_one, h]

theorem Orderly.covered_take (h : Orderly log) (hf : log[k]? = some f) (he : f.event = some e)
    (a : String) :
    covered ((ParticipationView.fold (eventsAt (log.take (k + 1))
        (viewKey e f.iid))).intervalsOf a) e.sequence =
      covered ((ParticipationView.fold (eventsAt log (viewKey e f.iid))).intervalsOf a)
        e.sequence := by
  have hmem : f ∈ log := List.mem_of_getElem? hf
  have hlater : ∀ e' ∈ eventsAt (log.drop (k + 1)) (viewKey e f.iid), e.sequence < e'.sequence := by
    intro e' he'
    rcases mem_eventsAt he' with ⟨g, hg, hge, hkey⟩
    have hpair : (log.take (k + 1) ++ log.drop (k + 1)).Pairwise fun f g => ∀ e e',
        f.event = some e → g.event = some e' → e.tenantId = e'.tenantId → f.iid = g.iid →
        e.sequence < e'.sequence := by
      simpa using h.increasing
    have hsame := h.distinctKeys f hmem g (List.mem_of_mem_drop hg) e e' he hge hkey.symm
    exact (List.pairwise_append.1 hpair).2.2 f (by simp [take_concat hf]) g hg e e' he hge
      hsame.1 hsame.2
  calc covered ((ParticipationView.fold (eventsAt (log.take (k + 1))
        (viewKey e f.iid))).intervalsOf a) e.sequence
      = covered ((ParticipationView.fold (eventsAt (log.take (k + 1)) (viewKey e f.iid) ++
          eventsAt (log.drop (k + 1)) (viewKey e f.iid))).intervalsOf a) e.sequence :=
        (ParticipationView.covered_fold_append _ _ hlater a).symm
    _ = covered ((ParticipationView.fold (eventsAt log (viewKey e f.iid))).intervalsOf a)
          e.sequence := by
        rw [← eventsAt_append, List.take_append_drop]

/-! ## Ack floors -/

def floorOf (log : List Fact) (n : Nat) : Nat :=
  ((log.take n).getLast?.map Fact.streamSeq).getD 0

theorem floorOf_succ (h : log[k]? = some f) : floorOf log (k + 1) = f.streamSeq := by
  simp [floorOf, take_concat h]

theorem Sequenced.le_floorOf (h : Sequenced log) (hf : f ∈ log.take n) :
    f.streamSeq ≤ floorOf log n := by
  have hpair : (log.take n).Pairwise fun f g => f.streamSeq < g.streamSeq :=
    h.streamSeqs.sublist (List.take_sublist n log)
  unfold floorOf
  rcases List.eq_nil_or_concat' (log.take n) with hnil | ⟨init, last, hconcat⟩
  · simp [hnil] at hf
  · rw [hconcat] at hf hpair ⊢
    simp only [List.getLast?_concat]
    rcases List.mem_append.1 hf with hf | hf
    · exact Nat.le_of_lt ((List.pairwise_append.1 hpair).2.2 f hf last (by simp))
    · have : f = last := by simpa using hf
      simp [this]

theorem Sequenced.floorOf_lt (h : Sequenced log) (hf : f ∈ log.drop n) :
    floorOf log n < f.streamSeq := by
  have hpair : (log.take n ++ log.drop n).Pairwise fun f g => f.streamSeq < g.streamSeq := by
    simpa using h.streamSeqs
  unfold floorOf
  rcases List.eq_nil_or_concat' (log.take n) with hnil | ⟨init, last, hconcat⟩
  · simpa [hnil] using h.positive f (List.mem_of_mem_drop hf)
  · rw [hconcat] at hpair ⊢
    simp only [List.getLast?_concat]
    exact (List.pairwise_append.1 hpair).2.2 last (by simp) f hf

theorem Sequenced.floorOf_lt_floorOf (h : Sequenced log) {m : Nat} (hmn : m < n)
    (hn : n ≤ log.length) : floorOf log m < floorOf log n := by
  rcases Nat.exists_eq_add_of_lt hmn with ⟨k, rfl⟩
  have hget : log[m + k]? = some log[m + k] := List.getElem?_eq_getElem (by omega)
  rw [floorOf_succ hget]
  apply h.floorOf_lt
  apply List.mem_of_getElem? (i := k)
  simp

theorem Sequenced.range_eq (h : Sequenced log) {m : Nat} (hle : m ≤ n) :
    (log.filter fun f => floorOf log m < f.streamSeq && f.streamSeq ≤ floorOf log n &&
      f.event.isSome) = ((log.take n).drop m).filter fun f => f.event.isSome := by
  have hsplit : log = log.take m ++ ((log.take n).drop m ++ log.drop n) := by
    calc log = log.take n ++ log.drop n := (List.take_append_drop n log).symm
      _ = ((log.take n).take m ++ (log.take n).drop m) ++ log.drop n :=
          congrArg (· ++ log.drop n) (List.take_append_drop m (log.take n)).symm
      _ = log.take m ++ ((log.take n).drop m ++ log.drop n) := by
          rw [List.take_take, Nat.min_eq_left hle, List.append_assoc]
  have hbelow : ∀ f ∈ log.take m, ¬ floorOf log m < f.streamSeq := by
    intro f hf
    have := h.le_floorOf hf
    omega
  have habove : ∀ f ∈ log.drop n, ¬ f.streamSeq ≤ floorOf log n := by
    intro f hf
    have := h.floorOf_lt hf
    omega
  have hbetween : ∀ f ∈ (log.take n).drop m, floorOf log m < f.streamSeq ∧
      f.streamSeq ≤ floorOf log n := by
    intro f hf
    have htake : f ∈ log.take n := List.mem_of_mem_drop hf
    have hdrop : f ∈ log.drop m := by
      rw [List.drop_take] at hf
      exact List.mem_of_mem_take hf
    exact ⟨h.floorOf_lt hdrop, h.le_floorOf htake⟩
  generalize floorOf log m = lo at *
  generalize floorOf log n = hi at *
  have hlow : ((log.take m).filter fun f => lo < f.streamSeq && f.streamSeq ≤ hi &&
      f.event.isSome) = [] := by
    refine List.filter_eq_nil_iff.2 ?_
    intro f hf
    simp [hbelow f hf]
  have hhigh : ((log.drop n).filter fun f => lo < f.streamSeq && f.streamSeq ≤ hi &&
      f.event.isSome) = [] := by
    refine List.filter_eq_nil_iff.2 ?_
    intro f hf
    simp [habove f hf]
  have hmiddle : (((log.take n).drop m).filter fun f => lo < f.streamSeq && f.streamSeq ≤ hi &&
      f.event.isSome) = ((log.take n).drop m).filter fun f => f.event.isSome := by
    refine List.filter_congr ?_
    intro f hf
    simp [hbetween f hf]
  conv_lhs => rw [hsplit]
  rw [List.filter_append, List.filter_append, hlow, hmiddle, hhigh, List.nil_append, List.append_nil]

theorem foldl_filter_decodable (facts : List Fact) :
    ∀ st : State, (facts.filter fun f => f.event.isSome).foldl State.applyFact st =
      facts.foldl State.applyFact st := by
  induction facts with
  | nil => exact fun _ => rfl
  | cons f facts ih =>
    intro st
    cases he : f.event with
    | none =>
      have hskip : st.applyFact f = st := by simp [State.applyFact, he]
      simpa [he, hskip] using ih st
    | some e => simpa [he] using ih (st.applyFact f)

/-! ## The invariant -/

def CoveredAt (log : List Fact) (e : Event) (iid agent : String) : Prop :=
  covered ((ParticipationView.fold (eventsAt log (viewKey e iid))).intervalsOf agent)
    e.sequence = true

def Legit (log : List Fact) (m : FeedMsg) : Prop :=
  (∃ f ∈ log, ∃ e a, f.event = some e ∧ CoveredAt log e f.iid a ∧ m = eventMsg e f.iid a) ∨
    ∃ e iid, m = tombstoneMsg e iid

def Faithful (log : List Fact) (seq : Nat) (snap : Snapshot) : Prop :=
  ∃ k f, log[k]? = some f ∧ f.streamSeq = seq ∧
    (State.new.restore (some snap)).Folds (log.take (k + 1))

def FanoutSendable (log : List Fact) : Request → Prop
  | .publish m => Legit log m
  | .dlq _ => True
  | .save seq snap => Faithful log seq snap

structure FeedOk (log : List Fact) (feed : List FeedMsg) : Prop where
  legit : ∀ m ∈ feed, Legit log m
  unique : (feed.map FeedMsg.dedup).Nodup

structure FanoutInv (log : List Fact) (w : World) : Prop where
  log_eq : w.log = log
  cursor_le : w.cursor ≤ log.length
  kept : ∀ fate ∈ w.fates, fate ≠ .dropped
  feed : FeedOk log w.feed
  snaps : ∀ s ∈ w.snaps, Faithful log s.1 s.2
  sent : ∀ r ∈ w.sent, FanoutSendable log r
  published : ∀ {k : Nat} {view : ParticipationView} {f : Fact} {e : Event},
    w.fates[k]? = some (.acked (some view)) → log[k]? = some f → f.event = some e →
    ∀ a, CoveredAt log e f.iid a → eventMsg e f.iid a ∈ w.feed
  deadLettered : ∀ {k : Nat}, w.fates[k]? = some (.acked none) → ∃ r ∈ w.dlq, r.source = k

theorem fanoutInv_start : FanoutInv log (World.start log) where
  log_eq := rfl
  cursor_le := Nat.zero_le _
  kept := by simp [World.start]
  feed := ⟨by simp [World.start], by simp [World.start]⟩
  snaps := by simp [World.start]
  sent := by simp [World.start]
  published := by simp [World.start]
  deadLettered := by simp [World.start]

section Serve

variable {w : World} {r : Request}

theorem FeedOk.concat {feed : List FeedMsg} {m : FeedMsg} (h : FeedOk log feed) (hm : Legit log m)
    (hnew : m.dedup ∉ feed.map FeedMsg.dedup) : FeedOk log (feed ++ [m]) where
  legit := by
    intro m' hm'
    rcases List.mem_append.1 hm' with hm' | hm'
    · exact h.legit m' hm'
    · have : m' = m := by simpa using hm'
      rw [this]
      exact hm
  unique := by
    rw [List.map_append, List.map_cons, List.map_nil, ← List.concat_eq_append]
    exact h.unique.concat hnew

theorem FeedOk.serve (hr : FanoutSendable log r) (h : FeedOk log w.feed) :
    FeedOk log (w.serve r).feed := by
  cases r with
  | publish m =>
    by_cases hm : m.dedup ∈ w.feed.map FeedMsg.dedup
    · simpa [World.serve, hm] using h
    · simpa [World.serve, hm] using h.concat hr hm
  | dlq r | save seq snap => exact h

theorem sent_serve (w : World) (r : Request) : (w.serve r).sent = w.sent := by
  cases r with
  | publish m =>
    by_cases hm : m.dedup ∈ w.feed.map FeedMsg.dedup
    all_goals simp [World.serve, hm]
  | dlq r | save seq snap => rfl

theorem snaps_serve (hr : FanoutSendable log r) (h : ∀ s ∈ w.snaps, Faithful log s.1 s.2) :
    ∀ s ∈ (w.serve r).snaps, Faithful log s.1 s.2 := by
  cases r with
  | publish m =>
    by_cases hm : m.dedup ∈ w.feed.map FeedMsg.dedup
    all_goals simpa [World.serve, hm] using h
  | dlq r => exact h
  | save seq snap =>
    intro s hs
    rcases List.mem_append.1 hs with hs | hs
    · exact h s hs
    · have : s = (seq, snap) := by simpa using hs
      rw [this]
      exact hr

theorem FanoutInv.serve (hr : FanoutSendable log r) (h : FanoutInv log w) :
    FanoutInv log (w.serve r) where
  log_eq := (quiet_serve w r).log.trans h.log_eq
  cursor_le := by simpa [World.cursor, (quiet_serve w r).fates] using h.cursor_le
  kept := by simpa [(quiet_serve w r).fates] using h.kept
  feed := h.feed.serve hr
  snaps := snaps_serve hr h.snaps
  sent := by simpa [sent_serve] using h.sent
  published := by
    intro k view f e hk hf he a ha
    rw [(quiet_serve w r).fates] at hk
    exact (quiet_serve w r).feed (h.published hk hf he a ha)
  deadLettered := by
    intro k hk
    rw [(quiet_serve w r).fates] at hk
    rcases h.deadLettered hk with ⟨r', hr', hs⟩
    exact ⟨r', (quiet_serve w r).dlq hr', hs⟩

theorem FanoutInv.send (hr : FanoutSendable log r) (h : FanoutInv log w) :
    FanoutInv log (w.send r) where
  log_eq := h.log_eq
  cursor_le := h.cursor_le
  kept := h.kept
  feed := h.feed
  snaps := h.snaps
  sent := by
    intro r' hr'
    rcases List.mem_append.1 hr' with hr' | hr'
    · exact h.sent r' hr'
    · have : r' = r := by simpa using hr'
      rw [this]
      exact hr
  published := h.published
  deadLettered := h.deadLettered

end Serve

/-! ## Positions -/

section Position

variable {w : World} {st : State} {d : Delivery}

def AtCursor (log : List Fact) (st : State) (w : World) : Prop :=
  st.Folds (log.take w.cursor) ∨ st.Folds (log.take (w.cursor + 1))

structure InHand (log : List Fact) (d : Delivery) (w : World) : Prop where
  index : d.index = w.cursor
  fact : log[d.index]? = some d.fact

theorem AtCursor.quiet {w' : World} (hq : Quiet w w') (h : AtCursor log st w) :
    AtCursor log st w' := by
  simpa [AtCursor, World.cursor, hq.fates] using h

theorem InHand.quiet {w' : World} (hq : Quiet w w') (h : InHand log d w) : InHand log d w' :=
  ⟨by simpa [World.cursor, hq.fates] using h.index, h.fact⟩

variable {e : Event}

theorem AtCursor.apply (h : AtCursor log st w) (hd : InHand log d w) (he : d.fact.event = some e) :
    (st.applyEvent e d.fact.iid).Folds (log.take (d.index + 1)) := by
  have happly : st.applyEvent e d.fact.iid = st.applyFact d.fact := by
    simp [State.applyFact, he]
  rw [happly, take_concat hd.fact, hd.index]
  rcases h with h | h
  · exact h.next d.fact
  · rw [take_concat (hd.index ▸ hd.fact)] at h
    exact h.again

theorem Orderly.covered_view (h : Orderly log) (hd : InHand log d w)
    (hst : st.Folds (log.take (d.index + 1))) (he : d.fact.event = some e) (a : String) :
    covered ((st.view (viewKey e d.fact.iid)).intervalsOf a) e.sequence = true ↔
      CoveredAt log e d.fact.iid a := by
  rw [hst, h.covered_take hd.fact he]
  exact Iff.rfl

theorem Orderly.stored (h : Orderly log) (hfeed : FeedOk log w.feed) {a : String} (hf : f ∈ log)
    (he : f.event = some e) (hs : Stored w (eventID e.tenantId a f.iid e.sequence)) :
    eventMsg e f.iid a ∈ w.feed := by
  rcases hs with ⟨m, hm, hid⟩
  rcases hfeed.legit m hm with ⟨g, hg, e', a', he', _, rfl⟩ | ⟨e', iid, rfl⟩
  · have hdot := h.dotFree f hf e he
    have hdot' := h.dotFree g hg e' he'
    rcases eventID_injective hdot'.1 hdot.1 hdot'.2 hdot.2 hid with ⟨ht, rfl, hi, hseq⟩
    have hfg := h.eq_of_sequence hg hf he' he ht hi hseq
    subst hfg
    rw [he'] at he
    cases he
    exact hm
  · exact absurd hid.symm eventID_ne_tombstoneID

/-! ## Hydration -/

theorem World.ackFloor_eq (hlog : w.log = log) (hkept : ∀ fate ∈ w.fates, fate ≠ .dropped) :
    w.ackFloor = floorOf log w.cursor := by
  have hall : w.ackedPrefix = w.cursor := by
    unfold World.ackedPrefix
    rw [List.takeWhile_eq_self_iff.2]
    · rfl
    · intro fate hfate
      simpa using hkept fate hfate
  simp only [World.ackFloor, floorOf, hall, hlog]

theorem Sequenced.hydrated (h : Sequenced log) {key : String} (hlog : w.log = log)
    (hcursor : w.cursor ≤ log.length) (hkept : ∀ fate ∈ w.fates, fate ≠ .dropped)
    {snap : Option Snapshot} (hst : State.FoldsAt key (State.new.restore snap) (log.take n))
    (hn : n ≤ log.length) (hle : floorOf log n ≤ w.ackFloor) :
    State.FoldsAt key (hydratedState w snap (floorOf log n)) (log.take w.cursor) := by
  unfold hydratedState
  rw [World.ackFloor_eq hlog hkept] at hle ⊢
  rcases Nat.lt_trichotomy n w.cursor with hlt | rfl | hgt
  · have hfloor := h.floorOf_lt_floorOf hlt hcursor
    have hrange : w.range (floorOf log n) (floorOf log w.cursor) =
        ((log.take w.cursor).drop n).filter fun f => f.event.isSome := by
      unfold World.range
      rw [hlog]
      exact h.range_eq (Nat.le_of_lt hlt)
    have hsplit : log.take n ++ (log.take w.cursor).drop n = log.take w.cursor := by
      calc log.take n ++ (log.take w.cursor).drop n
          = (log.take w.cursor).take n ++ (log.take w.cursor).drop n := by
            rw [List.take_take, Nat.min_eq_left (Nat.le_of_lt hlt)]
        _ = log.take w.cursor := List.take_append_drop _ _
    rw [if_pos hfloor, hrange, foldl_filter_decodable]
    simpa only [hsplit] using hst.foldl ((log.take w.cursor).drop n)
  · simpa using hst
  · have hfloor := h.floorOf_lt_floorOf hgt hn
    omega

end Position

/-! ## The outline -/

theorem FanoutInv.settle {d : Delivery} {view : Option ParticipationView} (h : FanoutInv log w)
    (hd : InHand log d w)
    (hpub : ∀ v, view = some v → ∀ e, d.fact.event = some e → ∀ a, CoveredAt log e d.fact.iid a →
      eventMsg e d.fact.iid a ∈ w.feed) (hdead : view = none → ∃ r ∈ w.dlq, r.source = d.index) :
    FanoutInv log (w.settle d.index (.acked view)) := by
  have hlt : d.index < log.length := (List.getElem?_eq_some_iff.1 hd.fact).1
  -- an entry of the extended list is an old one, or the new one at the cursor
  have hlast : ∀ {k fate}, (w.fates ++ [Fate.acked view])[k]? = some fate →
      w.fates[k]? = some fate ∨ (k = d.index ∧ fate = .acked view) := by
    intro k fate hk
    rcases Nat.lt_trichotomy k w.fates.length with hk' | hk' | hk'
    · exact .inl (by simpa [List.getElem?_append_left hk'] using hk)
    · refine .inr ⟨by rw [hk', hd.index, World.cursor], ?_⟩
      simpa [hk'] using hk.symm
    · rw [List.getElem?_eq_none (by simp; omega)] at hk
      cases hk
  simp only [World.settle, hd.index, if_true]
  refine ⟨h.log_eq, ?_, ?_, h.feed, h.snaps, h.sent, ?_, ?_⟩
  · simp only [World.cursor, List.length_append, List.length_cons, List.length_nil]
    have := hd.index
    unfold World.cursor at this
    omega
  · intro fate hfate
    rcases List.mem_append.1 hfate with hfate | hfate
    · exact h.kept fate hfate
    · have : fate = .acked view := by simpa using hfate
      simp [this]
  · intro k v f e hk hf he a ha
    rcases hlast hk with hk | ⟨rfl, hv⟩
    · exact h.published hk hf he a ha
    · rw [hd.fact] at hf
      cases hf
      exact hpub v (Fate.acked.inj hv).symm e he a ha
  · intro k hk
    rcases hlast hk with hk | ⟨rfl, hv⟩
    · exact h.deadLettered hk
    · exact hdead (Fate.acked.inj hv).symm

theorem atCursor_settle {st : State} {d : Delivery} {fate : Fate} (hd : InHand log d w)
    (hst : st.Folds (log.take (d.index + 1))) : AtCursor log st (w.settle d.index fate) := by
  refine .inl ?_
  simpa [World.settle, World.cursor, hd.index] using hst

def fanoutOutline (log : List Fact) (hlog : Orderly log) : Outline none where
  okConfig _ := True
  ok _ _ _ := True
  okExpire _ := True
  Inv := FanoutInv log
  Sendable := FanoutSendable log
  Head := AtCursor log
  Given st d w := InHand log d w ∧ AtCursor log st w
  Held st d w := InHand log d w ∧ st.Folds (log.take (d.index + 1))
  Again _ := True
  head_quiet := fun hq h => h.quiet hq
  given_quiet := fun hq h => ⟨h.1.quiet hq, h.2.quiet hq⟩
  held_quiet := fun hq h => ⟨h.1.quiet hq, h.2⟩
  serve := fun hr h => h.serve hr
  send := fun hr h => h.send hr
  arrive := fun h hr => h.serve (h.sent _ hr)
  expire := fun _ => by simp
  hydrated := by
    intro w snap snapSeq hinv hloaded hle
    refine .inl (State.folds_iff.2 fun key => ?_)
    rcases hloaded with ⟨rfl, rfl⟩ | ⟨s, rfl, hs⟩
    · exact hlog.sequenced.hydrated (n := 0) hinv.log_eq hinv.cursor_le hinv.kept
        (State.foldsAt_new key) (Nat.zero_le _) hle
    · rcases hinv.snaps _ hs with ⟨k, f, hf, rfl, hfold⟩
      have hk : k + 1 ≤ log.length := (List.getElem?_eq_some_iff.1 hf).1
      rw [← floorOf_succ hf] at hle ⊢
      exact hlog.sequenced.hydrated hinv.log_eq hinv.cursor_le hinv.kept
        (State.folds_iff.1 hfold key) hk hle
  delivered := by
    intro st w f hinv hhead hf _
    rw [hinv.log_eq] at hf
    exact ⟨⟨hinv.log_eq, hinv.cursor_le, hinv.kept, hinv.feed, hinv.snaps, hinv.sent,
      hinv.published, hinv.deadLettered⟩, ⟨rfl, hf⟩, hhead⟩
  malformed := by
    intro st d w hgiven hbad
    exact absurd (hlog.wellFormed _ (List.mem_of_getElem? hgiven.1.fact)) hbad
  applied := fun hgiven _ he => ⟨hgiven.1, hgiven.2.apply hgiven.1 he⟩
  publish := by
    intro st d w e a hheld _ he hcov
    exact .inl ⟨d.fact, List.mem_of_getElem? hheld.1.fact, e, a, he,
      (hlog.covered_view hheld.1 hheld.2 he a).1 hcov, rfl⟩
  tombstone := fun _ _ _ _ => .inr ⟨_, _, rfl⟩
  dlq := fun _ _ => trivial
  save := fun hheld _ => ⟨_, _, hheld.1.fact, rfl, hheld.2.restore⟩
  head_of_held := by
    intro st d w hheld
    refine .inr ?_
    rw [← hheld.1.index]
    exact hheld.2
  acked := by
    intro st d w e hinv hheld _ he hpub
    refine ⟨hinv.settle hheld.1 ?_ (by simp), atCursor_settle hheld.1 hheld.2⟩
    intro _ _ e' he' a ha
    rw [he] at he'
    cases he'
    exact hlog.stored hinv.feed (List.mem_of_getElem? hheld.1.fact) he
      (hpub.covered a ((hlog.covered_view hheld.1 hheld.2 he a).2 ha))
  deadLettered := by
    intro st d w reason hinv hheld hrecord
    exact ⟨hinv.settle hheld.1 (by simp) (fun _ => ⟨_, hrecord, rfl⟩),
      atCursor_settle hheld.1 hheld.2⟩
  givenBack := by
    intro st d w hinv hheld _
    refine ⟨hinv, .inr ?_⟩
    change st.Folds (log.take (w.cursor + 1))
    rw [← hheld.1.index]
    exact hheld.2
  again_config := fun _ _ => trivial
  again_ctx := fun _ _ _ => trivial
  again_dlq := fun _ _ _ => trivial

def FeedMsg.eventAt (m : FeedMsg) (tenant agent iid : String) (s : Int) : Bool :=
  m.tenant = tenant && m.agent = agent && m.iid = iid &&
    match m.payload with
    | .event e => e.sequence = s
    | .control _ => false

def World.acked (w : World) (k : Nat) : Bool :=
  match w.fates[k]? with
  | some (.acked _) => true
  | some .dropped | none => false

theorem World.acked_iff : w.acked k = true ↔ ∃ view, w.fates[k]? = some (.acked view) := by
  unfold acked
  split
  all_goals
    rename_i hk
    simp [hk]

def Member (log : List Fact) (tenant iid agent : String) (s : Int) : Prop :=
  covered ((ParticipationView.fold (eventsOf log tenant iid)).intervalsOf agent) s = true
  deriving Decidable

theorem eventAt_eventMsg {i a tenant agent iid : String} {s : Int}
    (h : (eventMsg e i a).eventAt tenant agent iid s = true) :
    e.tenantId = tenant ∧ a = agent ∧ i = iid ∧ e.sequence = s := by
  simp only [FeedMsg.eventAt, Bool.and_eq_true, decide_eq_true_eq] at h
  exact ⟨h.1.1.1, h.1.1.2, h.1.2, of_decide_eq_true h.2⟩

theorem FanoutInv.eventAt (hlog : Orderly log) (h : FanoutInv log w) {m : FeedMsg}
    {tenant agent iid : String} {s : Int} (hm : m ∈ w.feed)
    (hat : m.eventAt tenant agent iid s = true) :
    m.dedup = eventID tenant agent iid s ∧ Member log tenant iid agent s := by
  rcases h.feed.legit m hm with ⟨f, hf, e, a, he, hcov, rfl⟩ | ⟨e, i, rfl⟩
  · rcases eventAt_eventMsg hat with ⟨rfl, rfl, rfl, rfl⟩
    refine ⟨rfl, ?_⟩
    unfold Member
    rw [← hlog.eventsAt_eq hf he]
    exact hcov
  · simp [FeedMsg.eventAt, tombstoneMsg] at hat

namespace Scenario

def fact (n : Nat) (eventType actorId : String) : Fact where
  event := some
    { schema := schemaV1, eventType := eventType, eventId := "", sequence := n, occurredAt := 0,
      tenantId := "t", actorId := actorId, medium := "", commandId := "", payloadHash := "",
      causedBy := "", refId := "", data := [], commandedBy := "", reason := "", requestId := "" }
  iid := "i"
  streamSeq := n

def shortLog : List Fact :=
  [fact 1 "participant.joined" "alice", fact 2 "message" "bob", fact 3 "participant.left" "alice"]

def worker : Worker where
  cfg := ⟨5, 1, 2⟩
  turns := 4

abbrev Schedule :=
  List (Takeover.Label Worker Choice Tick)

def acts (choices : List Choice) : Schedule :=
  choices.map .act

def hydration (snap : Option Nat) : List Choice :=
  [.go, .found snap]

/-- A delivery of the join; its first publish is stored but not acked and is repeated. -/
def joinRepeated : List Choice :=
  [.go, .listed ["alice"], .go, .lost "timeout", .go, .go, .go, .go, .go]

def messageSent : List Choice :=
  [.go, .listed ["alice"], .go, .go]

def finished : List Choice :=
  [.go, .go, .go]

def leaveSent : List Choice :=
  [.go, .listed ["alice"], .go, .go, .go, .go]

/-- The worker crashes after the message was published; the next one starts from the snapshot,
publishes the message again and goes on to the leave. -/
def crashAfterPublish : Schedule :=
  .takeover worker :: acts (hydration none ++ joinRepeated ++ messageSent) ++
    .takeover worker :: acts (hydration (some 0) ++ messageSent ++ finished ++ leaveSent ++ finished)

theorem orderly_shortLog : Orderly shortLog where
  wellFormed := by
    intro f hf
    simp only [shortLog, List.mem_cons, List.not_mem_nil, or_false] at hf
    rcases hf with rfl | rfl | rfl
    all_goals exact ⟨_, rfl, by decide, by decide, by decide⟩
  dotFree := by
    intro f hf e he
    simp only [shortLog, List.mem_cons, List.not_mem_nil, or_false] at hf
    rcases hf with rfl | rfl | rfl
    all_goals
      cases he
      exact ⟨by decide, by decide⟩
  increasing := by
    simp [shortLog, fact]
  distinctKeys := by
    intro f hf g hg e e' he he' _
    simp only [shortLog, List.mem_cons, List.not_mem_nil, or_false] at hf hg
    rcases hf with rfl | rfl | rfl
    all_goals
      cases he
      rcases hg with rfl | rfl | rfl
      all_goals
        cases he'
        exact ⟨rfl, rfl⟩
  streamSeqs := by
    simp [shortLog, fact]
  positive := by
    simp [shortLog, fact]

end Scenario

end RelayPoint.Projector
