import RelayPoint.Projector.Pipeline
import RelayPoint.Signaling.LogLaws

/-!
# Revocation — the tombstones of a feed and the intervals that leaves close

A tombstone is published for every `participant.left` fact, whereas only the leave of a participant
closes an interval.  The router lands the leave of anybody, so the two agree just on logs in which
every leave is of an agent that takes part when it is written (`Matched`).
-/

namespace RelayPoint.Projector

open Concurrency Signaling ParticipationView

/-! ## Leaves and closed intervals -/

def leaves (events : List Event) (agent : String) : List Int :=
  (events.filter fun e => e.eventType = "participant.left" ∧ e.actorId = agent).map Event.sequence

def closedAt (ins : List Interval) : List Int :=
  (ins.filter fun i => !i.leftOpen).map Interval.leftSeq

def Matched (events : List Event) : Prop :=
  ∀ before e after, events = before ++ e :: after → e.eventType = "participant.left" →
    (fold before).isParticipantNow e.actorId = true

section Intervals

variable {events later : List Event} {e : Event} {a : String} {cur : List Interval} {s : Int}

theorem closedAt_opened (s : Int) (cur : List Interval) : closedAt (opened s cur) = closedAt cur := by
  unfold opened
  split
  · rfl
  · simp [closedAt]

theorem closedAt_closed (hopen : lastOpen cur = true) : closedAt (closed s cur) = closedAt cur ++ [s] := by
  rcases List.eq_nil_or_concat' cur with rfl | ⟨init, last, rfl⟩
  · simp [lastOpen] at hopen
  · have hlast : last.leftOpen = true := by simpa [lastOpen] using hopen
    rw [closed_concat_open s init hlast]
    simp [closedAt, hlast]

theorem Matched.of_concat (h : Matched (events ++ [e])) :
    Matched events ∧ (e.eventType = "participant.left" →
      (fold events).isParticipantNow e.actorId = true) := by
  refine ⟨?_, fun hleft => h events e [] rfl hleft⟩
  rintro before e' after rfl hleft
  exact h before e' (after ++ [e]) (by simp) hleft

theorem closedAt_fold (h : Matched events) (a : String) :
    closedAt ((fold events).intervalsOf a) = leaves events a := by
  induction events using List.reverseRecOn with
  | nil => rfl
  | append_singleton events e ih =>
    rcases h.of_concat with ⟨hbefore, hopen⟩
    have hrest := ih hbefore
    rw [fold_concat, intervalsOf_applyFact]
    unfold stepIntervals
    by_cases hleft : e.eventType = "participant.left"
    · by_cases ha : a = e.actorId
      · subst ha
        have hnow : lastOpen ((fold events).intervalsOf e.actorId) = true := hopen hleft
        simp [hleft, closedAt_closed hnow, hrest, leaves]
      · have hne : ¬ e.actorId = a := fun h => ha h.symm
        simp [ha, hne, hrest, leaves]
    · have hsame : leaves (events ++ [e]) a = leaves events a := by simp [leaves, hleft]
      rw [hsame, ← hrest]
      split
      · split
        · exact closedAt_opened _ _
        · rfl
      · rfl

theorem closeFirst_eq_nil (h : closeFirst s cur = []) : cur = [] := by
  cases cur with
  | nil => rfl
  | cons i is =>
    unfold closeFirst at h
    split at h
    · cases h
    · cases h

theorem stepIntervals_eq_nil (h : stepIntervals e a cur = []) : cur = [] := by
  unfold stepIntervals at h
  split at h
  · split at h
    · unfold opened at h
      split at h
      · exact h
      · simp at h
    · exact h
  · split at h
    · split at h
      · simpa using closeFirst_eq_nil (List.reverse_eq_nil_iff.1 h)
      · exact h
    · exact h

theorem intervalsOf_append_eq_nil (h : (fold (events ++ later)).intervalsOf a = []) :
    (fold events).intervalsOf a = [] := by
  induction later using List.reverseRecOn with
  | nil => simpa using h
  | append_singleton later e ih =>
    rw [← List.append_assoc, fold_concat, intervalsOf_applyFact] at h
    exact ih (stepIntervals_eq_nil h)

theorem mem_leaves : s ∈ leaves events a ↔
    ∃ e ∈ events, e.eventType = "participant.left" ∧ e.actorId = a ∧ e.sequence = s := by
  simp [leaves, and_assoc]

theorem nodup_leaves (hinc : events.Pairwise fun e f => e.sequence < f.sequence) (a : String) :
    (leaves events a).Nodup := by
  have hpair : (leaves events a).Pairwise (· < ·) :=
    List.pairwise_map.2 (hinc.sublist List.filter_sublist)
  exact hpair.imp fun h => h.ne

end Intervals

/-! ## Runs without faults -/

/-- The port answers; where a map is listed or a snapshot looked up, with whatever there is. -/
def flawless : Op → Choice → Bool
  | .agents _, .listed _ | .load _, .found _ => true
  | .agents _, _ | .load _, _ => false
  | _, ch => ch.isGo

abbrev faultFree (max : Nat) : Policy Op Worker World Choice Tick where
  spawn worker := worker.cfg.withDefaults.maxDeliver = max
  op _ _ op ch := flawless op ch = true
  tick _ t := t ≠ .expire

def Succeeds (log : List Fact) : (op : Op) → Ans op → Prop
  | .deliver, a => ∀ d, a = .ok d → log[d.index]? = some d.fact
  | .marshal _, a | .request _, a | .ctxErr _, a => a = none
  | .ackFloor, _ | .load _, _ | .foldRange .., _ | .agents _, _ | .backoff, _ | .ack .., _
  | .nak _, _ => True

def Spares (log : List Fact) : Request → Prop
  | .dlq r => ∀ f, log[r.source]? = some f → ¬ f.WellFormed
  | .publish _ | .save .. => True

section Programs

variable {log : List Fact} {α : Type}

abbrev Spared (log : List Fact) (Q : α → Prop) (prog : Program α) : Prop :=
  Prog.Within (fun op => ∀ r, op = .request r → Spares log r) (Succeeds log) Q prog

variable {attempts : Nat} {cfg : Config}

theorem spared_publishWithRetry (m : FeedMsg) (hpos : 0 < attempts) :
    Spared log (fun err => err = none) (publishWithRetry m attempts) := by
  cases attempts with
  | zero => cases hpos
  | succ n =>
    refine Prog.within_perform (by rintro r ⟨⟩; trivial) fun res hres => ?_
    cases (hres : res = none)
    rfl

theorem spared_fanout (e : Event) (iid : String) (hpos : 0 < attempts) (recipients : List String) :
    Spared log (fun err => err = none) (fanout e iid attempts recipients) := by
  induction recipients with
  | nil => rfl
  | cons agent rest ih =>
    refine Prog.within_bind (spared_publishWithRetry _ hpos) fun err herr => ?_
    refine Prog.within_bind ih fun err' herr' => ?_
    rw [herr, herr']
    rfl

theorem spared_tombstone (e : Event) (iid : String) (hpos : 0 < attempts) :
    Spared log (fun err => err = none) (tombstone e iid attempts) := by
  refine Prog.within_perform (by rintro r ⟨⟩) fun merr hmerr => ?_
  cases (hmerr : merr = none)
  exact spared_publishWithRetry _ hpos

theorem spared_publishAll (hpos : 0 < cfg.publishRetry) (e : Event) (iid : String)
    (recipients : List String) :
    Spared log (fun err => err = none) (publishAll cfg e iid recipients) := by
  have hattempts : 0 < cfg.publishRetry.toNat := by omega
  refine Prog.within_bind (spared_fanout e iid hattempts recipients) fun err herr => ?_
  rw [herr]
  dsimp only
  split
  · refine Prog.within_bind (spared_tombstone e iid hattempts) fun err herr => ?_
    rw [herr]
    rfl
  · rfl

theorem spared_finish (cfg : Config) (p : Memory) (d : Delivery) (view : ParticipationView) :
    Spared log (fun _ => True) (finish cfg p d view) := by
  refine Prog.within_perform (by rintro r ⟨⟩) fun res hres => ?_
  cases (hres : res = none)
  refine Prog.within_perform (by rintro r ⟨⟩) fun res _ => ?_
  cases res with
  | some err => trivial
  | none =>
    refine Prog.within_bind (R := fun _ => True) ?_ fun _ _ => trivial
    unfold maybeSnapshot
    split
    · trivial
    · refine Prog.within_perform (by rintro r ⟨⟩; trivial) fun res _ => ?_
      cases res with
      | some err | none => trivial

theorem spared_dlqOrNak (cfg : Config) {d : Delivery} (hd : log[d.index]? = some d.fact)
    (hbad : ¬ d.fact.WellFormed) (reason : String) :
    Spared log (fun _ => True) (dlqOrNak cfg d reason) := by
  unfold dlqOrNak
  split
  · exact ⟨by rintro r ⟨⟩, fun _ _ => trivial⟩
  · refine Prog.within_perform ?_ fun res _ => ?_
    · rintro r ⟨⟩ f hf
      cases hd.symm.trans hf
      exact hbad
    · cases res with
      | some err => exact ⟨by rintro r ⟨⟩, fun _ _ => trivial⟩
      | none =>
        refine Prog.within_perform (by rintro r ⟨⟩) fun res _ => ?_
        cases res with
        | some err | none => trivial

theorem spared_project (hpos : 0 < cfg.publishRetry) (p : Memory) (d : Delivery) (e : Event) :
    Spared log (fun _ => True) (project cfg p d e) := by
  refine Prog.within_bind (R := fun _ => True)
    (Prog.within_perform (by rintro r ⟨⟩) fun _ _ => trivial) fun recipients _ => ?_
  refine Prog.within_perform (by rintro r ⟨⟩) fun merr hmerr => ?_
  cases (hmerr : merr = none)
  refine Prog.within_bind (spared_publishAll hpos e d.fact.iid recipients) fun err herr => ?_
  rw [herr]
  exact spared_finish cfg p d _

theorem spared_process (hpos : 0 < cfg.publishRetry) (p : Memory) {d : Delivery}
    (hd : log[d.index]? = some d.fact) : Spared log (fun _ => True) (process cfg p d) := by
  have hbad : ∀ reason, ¬ d.fact.WellFormed →
      Spared log (fun _ => True) (do return (← dlqOrNak cfg d reason, p)) :=
    fun reason hwf => Prog.within_bind (spared_dlqOrNak cfg hd hwf reason) fun _ _ => trivial
  unfold process
  split
  · next he =>
      refine hbad _ ?_
      rintro ⟨e, he', _⟩
      cases he.symm.trans he'
  · next e he =>
      split
      · next hempty =>
          refine hbad _ ?_
          rintro ⟨e', he', ht, htype, _⟩
          cases he.symm.trans he'
          exact hempty.elim ht htype
      · split
        · next hiid =>
            refine hbad _ ?_
            rintro ⟨_, _, _, _, hne⟩
            exact hne hiid
        · exact spared_project hpos _ d e

theorem spared_serveLoop (hpos : 0 < cfg.publishRetry) (turns : Nat) :
    ∀ p, Spared log (fun _ => True) (serveLoop cfg turns p) := by
  induction turns with
  | zero => exact fun _ => trivial
  | succ turns ih =>
    intro p
    refine Prog.within_perform (by rintro r ⟨⟩) fun d hd => ?_
    cases d with
    | error err =>
      refine Prog.within_perform (by rintro r ⟨⟩) fun res hres => ?_
      cases (hres : res = none)
      trivial
    | ok d =>
      refine Prog.within_bind (spared_process hpos p (hd d rfl)) fun out _ => ?_
      rcases out with ⟨err, p'⟩
      cases err with
      | none => exact ih p'
      | some err =>
        refine Prog.within_perform (by rintro r ⟨⟩) fun res hres => ?_
        cases (hres : res = none)
        trivial

theorem spared_run (worker : Worker) : Spared log (fun _ => True) (run worker) := by
  refine Prog.within_bind (R := fun _ => True) ?_ fun st _ => ?_
  · exact within_hydrate (by rintro r ⟨⟩) (by rintro n r ⟨⟩) (by rintro lo hi r ⟨⟩)
  · cases st with
    | none => trivial
    | some st => exact spared_serveLoop worker.cfg.publishRetry_pos _ _

end Programs

/-! ## The feeds of such runs -/

/-- What fault-free runs keep: no two messages share a dedup id, and only malformed facts are
dead-lettered. -/
structure Spotless (log : List Fact) (w : World) : Prop where
  log_eq : w.log = log
  dlq : ∀ r ∈ w.dlq, Spares log (.dlq r)
  sent : ∀ r ∈ w.sent, Spares log r
  unique : (w.feed.map FeedMsg.dedup).Nodup

section World

variable {log : List Fact} {w w' : World} {r : Request}

theorem mem_dlq_serve {x : DlqRecord} (h : x ∈ (w.serve r).dlq) : x ∈ w.dlq ∨ r = .dlq x := by
  cases r with
  | publish m =>
    by_cases hm : m.dedup ∈ w.feed.map FeedMsg.dedup
    all_goals exact .inl (by simpa [World.serve, hm] using h)
  | dlq r =>
    rcases List.mem_append.1 h with h | h
    · exact .inl h
    · exact .inr (by rw [List.mem_singleton.1 h])
  | save seq snap => exact .inl h

theorem unique_serve (h : (w.feed.map FeedMsg.dedup).Nodup) :
    ((w.serve r).feed.map FeedMsg.dedup).Nodup := by
  cases r with
  | publish m =>
    by_cases hm : m.dedup ∈ w.feed.map FeedMsg.dedup
    · simpa [World.serve, hm] using h
    · simp only [World.serve, hm, if_false, List.map_append, List.map_cons, List.map_nil]
      rw [← List.concat_eq_append]
      exact h.concat hm
  | dlq r | save seq snap => exact h

theorem Spotless.consumed (h : Spotless log w) (hw : Consumed w w') : Spotless log w' := by
  rcases hw with ⟨fates, delivered, rfl⟩
  exact ⟨h.log_eq, h.dlq, h.sent, h.unique⟩

theorem Spotless.serve (h : Spotless log w) (hr : Spares log r) : Spotless log (w.serve r) where
  log_eq := (quiet_serve w r).log.trans h.log_eq
  dlq := by
    intro x hx
    rcases mem_dlq_serve hx with hx | rfl
    · exact h.dlq x hx
    · exact hr
  sent := by simpa [sent_serve] using h.sent
  unique := unique_serve h.unique

theorem Spotless.send (h : Spotless log w) (hr : Spares log r) : Spotless log (w.send r) where
  log_eq := h.log_eq
  dlq := h.dlq
  sent := by
    intro x hx
    rcases List.mem_append.1 hx with hx | hx
    · exact h.sent x hx
    · rw [List.mem_singleton.1 hx]
      exact hr
  unique := h.unique

theorem succeeds_of_perform {max : Option Nat} {op : Op} {ch : Choice} {a : Ans op}
    (hlog : w.log = log) (hok : flawless op ch = true)
    (hp : (machine max).perform w op ch = some (a, w')) : Succeeds log op a := by
  have hcheck : ∀ {ch : Choice} {a : Option String}, ch.isGo = true →
      performCheck w ch = some (a, w') → a = none := by
    intro ch a hgo hp
    rcases performCheck_cases hp with ⟨_, ⟨ha, _⟩ | ⟨err, _, rfl⟩⟩
    · exact ha
    · cases hgo
  cases op with
  | deliver =>
    intro d hd
    rw [← hlog]
    exact (performDeliver_cases hp).2 d hd
  | marshal b | ctxErr site => exact hcheck hok hp
  | request r =>
    rcases performRequest_cases hp with ⟨ha, _⟩ | ⟨_, hne, _⟩
    · exact ha
    · exact absurd (Choice.isGo_iff.1 hok) hne
  | _ => trivial

theorem spotless_run {max : Nat} {c : Takeover.Config Ans Worker World Unit}
    (h : Takeover.Reachable (machine (some max)) run (faultFree max) (World.start log) c) :
    Spotless log c.world := by
  have hstart : Spotless log (World.start log) :=
    ⟨rfl, by simp [World.start], by simp [World.start], by simp [World.start]⟩
  have hbody : ∀ worker, Spared log (fun _ => True) (run worker) := spared_run
  refine (h.within hstart hbody ?_ ?_).1
  · intro b w op ch a w' hinv hop hok hp
    refine ⟨succeeds_of_perform hinv.log_eq hok hp, ?_⟩
    rcases perform_effect hp with hw | ⟨r, rfl, rfl | rfl⟩
    · exact hinv.consumed hw
    · exact hinv.serve (hop r rfl)
    · exact hinv.send (hop r rfl)
  · intro w t w' hinv ht
    rcases tick_effect ht with hw | ⟨r, hr, rfl⟩
    · exact hinv.consumed hw
    · exact hinv.serve (hinv.sent r hr)

end World

section Runs

variable {max : Nat} {log : List Fact} {t i : String} {c : Takeover.Config Ans Worker World Unit}

theorem deliveryPolicy_of_faultFree
    (h : Takeover.Reachable (machine (some max)) run (faultFree max) (World.start log) c) :
    Takeover.Reachable (machine (some max)) run (deliveryPolicy max) (World.start log) c := by
  have hspawn : ∀ worker, (faultFree max).spawn worker → (deliveryPolicy max).spawn worker :=
    fun _ hworker => hworker
  refine h.mono hspawn ?_ (fun _ _ ht hexpire => absurd hexpire ht)
  intro b w op ch hok
  change LastOk max w op ch
  unfold LastOk
  split
  · exact fun _ => Choice.isGo_iff.1 hok
  · exact fun _ => Choice.isGo_iff.1 hok
  · exact fun _ => Choice.isGo_iff.1 hok
  · trivial

theorem aimed_of_feed (hlog : Sequenced log) (hclear : Clear t i log) (ht : t ≠ "") (hi : i ≠ "")
    (h : Takeover.Reachable (machine (some max)) run (deliveryPolicy max) (World.start log) c)
    {m : FeedMsg} (hm : m ∈ c.world.feed) : Aimed log t i m := by
  induction h with
  | start => cases hm
  | @tail c c' l hc hall hstep ih =>
    cases l with
    | takeover worker =>
      cases hstep
      exact ih hm
    | act ch =>
      rcases Takeover.step_act hstep with ⟨th, op, next, a, w, hw, hp, hperf, rfl⟩
      rcases perform_effect hperf with ⟨_, _, rfl⟩ | ⟨r, rfl, rfl | rfl⟩
      · exact ih hm
      · rcases mem_feed_serve hm with hm | rfl
        · exact ih hm
        · exact aimed_of_publishes hlog hclear ht hi hc ⟨th, next, hw, hp⟩
      · exact ih hm
    | tick k =>
      rcases Takeover.step_tick hstep with ⟨w, htick, rfl⟩
      rcases tick_effect htick with ⟨_, _, rfl⟩ | ⟨r, hr, rfl⟩
      · exact ih hm
      · rcases mem_feed_serve hm with hm | rfl
        · exact ih hm
        · exact (isolated hlog hclear ht hi hc).sent (.publish m) hr

end Runs

/-! ## Tombstones -/

/-- Where the message is a revocation in the agent's feed of the interaction: its `AtSequence`. -/
def FeedMsg.revokes (m : FeedMsg) (tenant agent iid : String) : Option Int :=
  if m.tenant = tenant ∧ m.agent = agent ∧ m.iid = iid then
    match m.payload with
    | .control ctrl => if ctrl.control = "feed.revoked" then some ctrl.atSequence else none
    | .event _ => none
  else none

def revocations (feed : List FeedMsg) (tenant agent iid : String) : List Int :=
  feed.filterMap fun m => m.revokes tenant agent iid

theorem mem_eventsOf {log : List Fact} {t i : String} {e : Event} :
    e ∈ eventsOf log t i ↔ ∃ f ∈ log, f.event = some e ∧ e.tenantId = t ∧ f.iid = i := by
  simp [eventsOf]

theorem revokes_tombstoneMsg (e : Event) (iid : String) :
    (tombstoneMsg e iid).revokes e.tenantId e.actorId iid = some e.sequence := by
  simp [FeedMsg.revokes, tombstoneMsg]

theorem revokes_of_fromLog {log : List Fact} {m : FeedMsg} {t a i : String} {s : Int}
    (hm : FromLog log m) (hs : m.revokes t a i = some s) :
    m.dedup = tombstoneID t a i s ∧ s ∈ leaves (eventsOf log t i) a := by
  unfold FeedMsg.revokes at hs
  split at hs
  · next hplace =>
      rcases hplace with ⟨rfl, rfl, rfl⟩
      rcases hm with ⟨f, hf, ⟨he, _, rfl⟩ | ⟨he, _, hleft, rfl⟩⟩
      · cases hs
      · cases hs
        exact ⟨rfl, mem_leaves.2 ⟨_, mem_eventsOf.2 ⟨f, hf, he, rfl, rfl⟩, hleft, rfl, rfl⟩⟩
  · cases hs

section Match

variable {P : Policy Signaling.Op Call Signaling.World Signaling.Choice Signaling.Tick}
variable {c : Concurrency.Config Signaling.Ans Call Signaling.World CommandResult}
variable {max : Nat} {pc : Takeover.Config Ans Worker World Unit} {t i : String} {a : String} {s : Int}

theorem mem_revocations_of_leave
    (hrouters : Concurrency.Reachable Signaling.machine handleCommand P Signaling.World.start c)
    (hrun : Takeover.Reachable (machine (some max)) run (faultFree max)
      (World.start (routerLog c.world)) pc) (hdone : pc.world.cursor = (routerLog c.world).length)
    (ht : t ≠ "") (hi : i ≠ "") (hs : s ∈ leaves (eventsOf (routerLog c.world) t i) a) :
    s ∈ revocations pc.world.feed t a i := by
  rcases mem_leaves.1 hs with ⟨e, he, hleft, rfl, rfl⟩
  rcases mem_eventsOf.1 he with ⟨f, hf, hfe, rfl, rfl⟩
  rcases List.getElem?_of_mem hf with ⟨k, hk⟩
  have hlt : k < pc.world.fates.length := by
    rw [show pc.world.fates.length = _ from hdone]
    exact (List.getElem?_eq_some_iff.1 hk).1
  have hstored : Stored pc.world (tombstoneID e.tenantId e.actorId f.iid e.sequence) := by
    rcases delivery_resolved (deliveryPolicy_of_faultFree hrun) (List.getElem?_eq_getElem hlt) with
      ⟨view, f', e', _, hk', hfe', hpub⟩ | ⟨d, reason, rfl, hk', hrecord⟩
    · cases hk.symm.trans hk'
      cases hfe.symm.trans hfe'
      exact hpub.revoked hleft
    · -- only malformed facts are dead-lettered
      refine absurd ⟨e, hfe, ht, ?_, hi⟩ ((spotless_run hrun).dlq _ hrecord f hk)
      rw [hleft]
      decide
  rcases hstored with ⟨m, hm, hid⟩
  refine List.mem_filterMap.2 ⟨m, hm, ?_⟩
  have hdots : ∀ {g : Fact} {e' : Event}, g ∈ routerLog c.world → g.event = some e' →
      DotFree e'.tenantId ∧ DotFree g.iid := by
    intro g e' hg hge
    rcases placed_of_mem hrouters hg hge with ⟨_, _, _, hplaced⟩
    exact ⟨hplaced.tenant, hplaced.iid⟩
  rcases fromLog_of_issued hrun (.inl hm) with ⟨g, hg, ⟨hge, _, rfl⟩ | ⟨hge, _, _, rfl⟩⟩
  · exact absurd hid eventID_ne_tombstoneID
  · rcases tombstoneID_injective (hdots hg hge).1 (hdots hf hfe).1 (hdots hg hge).2 (hdots hf hfe).2
      hid with ⟨htenant, hactor, hiid, hseq⟩
    rw [← htenant, ← hactor, ← hiid, ← hseq]
    exact revokes_tombstoneMsg _ _

theorem nodup_revocations {log : List Fact} {feed : List FeedMsg}
    (hfrom : ∀ m ∈ feed, FromLog log m) (hunique : (feed.map FeedMsg.dedup).Nodup) (t a i : String) :
    (revocations feed t a i).Nodup := by
  refine List.pairwise_filterMap.2 ((List.pairwise_map.1 hunique).imp_of_mem ?_)
  rintro m m' hm hm' hne s hs s' hs' rfl
  exact hne ((revokes_of_fromLog (hfrom m hm) hs).1.trans (revokes_of_fromLog (hfrom m' hm') hs').1.symm)

/-- Over any log that the routers have written: in a run of the projector without faults that has
consumed the log, an agent's feed of an interaction holds one revocation for each closed interval of
the agent, at its `LeftSeq`, and an agent without intervals has no message of the interaction.  This
holds of an interaction whose sequences increase, in which every leave is of an agent that takes part
when it is written, and whose key no other interaction of the log has. -/
theorem tombstones_match_revocations
    (hrouters : Concurrency.Reachable Signaling.machine handleCommand P Signaling.World.start c)
    (hrun : Takeover.Reachable (machine (some max)) run (faultFree max)
      (World.start (routerLog c.world)) pc)
    (hdone : pc.world.cursor = (routerLog c.world).length) (ht : t ≠ "") (hi : i ≠ "")
    (hinc : (eventsOf (routerLog c.world) t i).Pairwise fun e f => e.sequence < f.sequence)
    (hmatched : Matched (eventsOf (routerLog c.world) t i)) (hclear : Clear t i (routerLog c.world))
    (agent : String) :
    (revocations pc.world.feed t agent i).Perm
      (closedAt ((fold (eventsOf (routerLog c.world) t i)).intervalsOf agent)) ∧
    ((fold (eventsOf (routerLog c.world) t i)).intervalsOf agent = [] →
      ∀ m ∈ pc.world.feed, ¬ (m.tenant = t ∧ m.agent = agent ∧ m.iid = i)) := by
  have hfrom : ∀ m ∈ pc.world.feed, FromLog (routerLog c.world) m :=
    fun m hm => fromLog_of_issued hrun (.inl hm)
  rw [closedAt_fold hmatched]
  refine ⟨?_, ?_⟩
  · refine (List.perm_ext_iff_of_nodup (nodup_revocations hfrom (spotless_run hrun).unique t agent i)
      (nodup_leaves hinc agent)).2 fun s => ⟨fun hs => ?_, fun hs => ?_⟩
    · rcases List.mem_filterMap.1 hs with ⟨m, hm, hrevokes⟩
      exact (revokes_of_fromLog (hfrom m hm) hrevokes).2
    · exact mem_revocations_of_leave hrouters hrun hdone ht hi hs
  · intro hnone m hm hplace
    -- the intervals of a prefix of the events are empty too
    have hempty : ∀ before after, eventsOf (routerLog c.world) t i = before ++ after →
        (fold before).intervalsOf agent = [] := by
      intro before after hsplit
      rw [hsplit] at hnone
      exact intervalsOf_append_eq_nil hnone
    have haimed := aimed_of_feed (sequenced_routerLog c.world) hclear ht hi
      (deliveryPolicy_of_faultFree hrun) hm
    rcases hfrom m hm with ⟨f, hf, ⟨he, _, rfl⟩ | ⟨he, _, hleft, rfl⟩⟩
    · simp only [eventMsg] at hplace
      rcases hplace with ⟨rfl, rfl, rfl⟩
      rcases haimed _ _ rfl rfl with ⟨n, hn, haudience⟩
      simp only [audience, hn] at haudience
      rw [hempty _ _ (List.take_append_drop (n + 1) _).symm] at haudience
      simp [covered] at haudience
    · simp only [tombstoneMsg] at hplace
      rcases hplace with ⟨rfl, rfl, rfl⟩
      rcases List.append_of_mem (mem_eventsOf.2 ⟨f, hf, he, rfl, rfl⟩) with ⟨before, after, hsplit⟩
      have hnow := hmatched before _ after hsplit hleft
      simp [isParticipantNow, hempty before _ hsplit, lastOpen] at hnow

end Match

/-! ## An agent who took part, and one who never did -/

theorem matched_iff {events : List Event} :
    Matched events ↔ ∀ k : Fin events.length, events[k].eventType = "participant.left" →
      (fold (events.take k)).isParticipantNow events[k].actorId = true := by
  constructor
  · intro h k hleft
    exact h _ _ (events.drop (k + 1)) (by simp) hleft
  · rintro h before e after rfl hleft
    simpa using h ⟨before.length, by simp⟩ (by simpa using hleft)

instance (events : List Event) : Decidable (Matched events) :=
  decidable_of_iff _ matched_iff.symm

namespace Scenario

open Signaling.Scenario (ordinary privileged backend write land cold warm)

def desk (commands : List (String × String)) : Signaling.Scenario.Schedule :=
  [.spawn (ordinary 1 backend "s" "interaction.started" [])] ++
    Signaling.Scenario.acts 0 (write cold .go) ++
  (commands.zipIdx 1).flatMap fun ⟨(id, type), k⟩ =>
    .spawn (privileged 1 id type "A" "") :: Signaling.Scenario.acts k (land warm .go)

def delivered (agents : List String) (tombstone : List Choice) : List Choice :=
  [.go, .listed agents, .go] ++ agents.map (fun _ => .go) ++ tombstone ++ finished

def consumed (deliveries : List Choice) : Schedule :=
  .takeover worker :: acts (hydration none ++ delivered [] [] ++ deliveries)

def observed {β : Type} (routers : Signaling.Scenario.Schedule) (projector : Schedule)
    (f : List Fact → World → β) : Option β :=
  (Concurrency.run Signaling.machine handleCommand Policy.free routers
    ⟨Signaling.World.start, []⟩).bind fun c =>
      (Takeover.run (machine (some 5)) Projector.run (faultFree 5) projector
        ⟨World.start (routerLog c.world), none⟩).map fun pc => f (routerLog c.world) pc.world

theorem exists_of_observed {β : Type} {routers : Signaling.Scenario.Schedule} {projector : Schedule}
    {f : List Fact → World → β} {v : β} (h : observed routers projector f = some v) :
    ∃ c pc, Concurrency.Reachable Signaling.machine handleCommand Policy.free Signaling.World.start c ∧
      Takeover.Reachable (machine (some 5)) Projector.run (faultFree 5)
        (World.start (routerLog c.world)) pc ∧ f (routerLog c.world) pc.world = v := by
  rcases Option.bind_eq_some_iff.1 h with ⟨c, hc, hpc⟩
  rcases Takeover.exists_of_run hpc with ⟨pc, hreach, hv⟩
  exact ⟨c, pc, Concurrency.Reachable.start.run hc, hreach, hv⟩

def onlyOne (log : List Fact) : Bool :=
  log.all fun f => f.event.all fun e => e.tenantId = "t" && f.iid = "i"

theorem clear_of_onlyOne {log : List Fact} (h : onlyOne log = true) : Clear "t" "i" log := by
  intro f hf e he hne
  have hone := List.all_eq_true.1 h f hf
  simp only [he, Option.all_some, Bool.and_eq_true, decide_eq_true_eq] at hone
  exact absurd (by rw [hone.1, hone.2]) hne

end Scenario

open Scenario in
/-- An agent who joins and leaves gets one tombstone, at the leave; nobody else gets anything. -/
theorem tombstones_match_revocations_joined :
    ∃ (c : Concurrency.Config Signaling.Ans Call Signaling.World CommandResult)
      (pc : Takeover.Config Ans Worker World Unit),
      closedAt ((fold (eventsOf (routerLog c.world) "t" "i")).intervalsOf "A") = [3] ∧
      (revocations pc.world.feed "t" "A" "i").Perm [3] ∧
      ∀ m ∈ pc.world.feed, ¬ (m.tenant = "t" ∧ m.agent = "B" ∧ m.iid = "i") := by
  have hrun : observed (desk [("p", "participant.assign"), ("q", "participant.unassign")])
      (consumed (delivered ["A"] [] ++ delivered ["A"] [.go, .go]))
      (fun log w => decide (w.cursor = log.length ∧ onlyOne log = true ∧
        (eventsOf log "t" "i").Pairwise (fun e f => e.sequence < f.sequence) ∧
        Matched (eventsOf log "t" "i") ∧
        closedAt ((fold (eventsOf log "t" "i")).intervalsOf "A") = [3] ∧
        (fold (eventsOf log "t" "i")).intervalsOf "B" = [])) = some true := by
    decide +kernel
  rcases exists_of_observed hrun with ⟨c, pc, hc, hpc, hfacts⟩
  rcases of_decide_eq_true hfacts with ⟨hdone, hone, hinc, hmatched, hclosed, hnone⟩
  have hmatch := tombstones_match_revocations hc hpc hdone (by decide) (by decide) hinc hmatched
    (clear_of_onlyOne hone)
  refine ⟨c, pc, hclosed, ?_, (hmatch "B").2 hnone⟩
  rw [← hclosed]
  exact (hmatch "A").1

open Scenario in
/-- An agent who was never assigned is unassigned: the leave is landed, and its tombstone is in the
feed of an agent without intervals. -/
theorem tombstone_without_interval :
    ∃ (c : Concurrency.Config Signaling.Ans Call Signaling.World CommandResult)
      (pc : Takeover.Config Ans Worker World Unit),
      Concurrency.Reachable Signaling.machine handleCommand Policy.free Signaling.World.start c ∧
      Takeover.Reachable (machine (some 5)) run (faultFree 5) (World.start (routerLog c.world)) pc ∧
      pc.world.cursor = (routerLog c.world).length ∧
      (fold (eventsOf (routerLog c.world) "t" "i")).intervalsOf "A" = [] ∧
      revocations pc.world.feed "t" "A" "i" = [2] ∧
      ¬ (revocations pc.world.feed "t" "A" "i").Perm
        (closedAt ((fold (eventsOf (routerLog c.world) "t" "i")).intervalsOf "A")) := by
  have hrun : observed (desk [("q", "participant.unassign")]) (consumed (delivered [] [.go, .go]))
      (fun log w => decide (w.cursor = log.length ∧
        (fold (eventsOf log "t" "i")).intervalsOf "A" = [] ∧
        revocations w.feed "t" "A" "i" = [2])) = some true := by
    decide +kernel
  rcases exists_of_observed hrun with ⟨c, pc, hc, hpc, hfacts⟩
  rcases of_decide_eq_true hfacts with ⟨hdone, hnone, hrevoked⟩
  refine ⟨c, pc, hc, hpc, hdone, hnone, hrevoked, ?_⟩
  rw [hrevoked, hnone]
  decide

end RelayPoint.Projector
