import RelayPoint.Projector.Isolation

/-!
# Publishing — what the projector publishes, and where

Whatever its ports answer and whoever takes over, a worker publishes only facts of the log, under
their own tenant and interaction, and the tombstones of leaves (`fromLog_of_issued`).
-/

namespace RelayPoint.Projector

open Concurrency Signaling

def FeedMsg.subject (m : FeedMsg) : String :=
  "tenant." ++ m.tenant ++ ".agent." ++ m.agent ++ ".feed." ++ m.iid

/-- The message is made of the fact: its event for some agent, or the tombstone of its leave. -/
inductive Fact.Projects (f : Fact) (m : FeedMsg) : Prop where
  | event {e : Event} {agent : String} : f.event = some e → f.WellFormed → m = eventMsg e f.iid agent →
      Projects f m
  | tombstone {e : Event} : f.event = some e → f.WellFormed → e.eventType = "participant.left" →
      m = tombstoneMsg e f.iid → Projects f m

def FromLog (log : List Fact) (m : FeedMsg) : Prop :=
  ∃ f ∈ log, f.Projects m

/-! ## The worker -/

def PublishesFrom (log : List Fact) : Op → Prop
  | .request (.publish m) => FromLog log m
  | .request (.dlq _) | .request (.save ..) | .ackFloor | .load _ | .foldRange .. | .deliver
  | .agents _ | .marshal _ | .backoff | .ctxErr _ | .ack .. | .nak _ => True

def DeliversFrom (log : List Fact) : (op : Op) → Ans op → Prop
  | .deliver, .ok d => d.fact ∈ log
  | .deliver, .error _ => True
  | .ackFloor, _ | .load _, _ | .foldRange .., _ | .agents _, _ | .marshal _, _ | .request _, _
  | .backoff, _ | .ctxErr _, _ | .ack .., _ | .nak _, _ => True

section Programs

variable {log : List Fact} {α : Type}

abbrev Bound (log : List Fact) (prog : Program α) : Prop :=
  Prog.Within (PublishesFrom log) (DeliversFrom log) (fun _ => True) prog

theorem bound_bind {β : Type} {p : Program α} {k : α → Program β} (hp : Bound log p)
    (hk : ∀ a, Bound log (k a)) : Bound log (p >>= k) :=
  Prog.within_bind hp fun a _ => hk a

variable {m : FeedMsg}

theorem bound_request (hm : FromLog log m) : Bound log (request (.publish m)) :=
  ⟨hm, fun _ _ => trivial⟩

theorem bound_retryPublish (hm : FromLog log m) (n : Nat) :
    ∀ err, Bound log (retryPublish m err n) := by
  induction n with
  | zero => exact fun _ => trivial
  | succ n ih =>
    intro err
    refine Prog.within_perform trivial fun cerr _ => ?_
    cases cerr with
    | some cerr => trivial
    | none =>
      refine bound_bind (bound_request hm) fun res => ?_
      cases res with
      | none => trivial
      | some err => exact ih err

theorem bound_publishWithRetry (hm : FromLog log m) (attempts : Nat) :
    Bound log (publishWithRetry m attempts) := by
  cases attempts with
  | zero => trivial
  | succ n =>
    refine bound_bind (bound_request hm) fun res => ?_
    cases res with
    | none => trivial
    | some err => exact bound_retryPublish hm n err

section Fact

variable {f : Fact} {e : Event} (hf : f ∈ log) (hwf : f.WellFormed) (he : f.event = some e)
include hf hwf he

theorem bound_fanout (attempts : Nat) (recipients : List String) :
    Bound log (fanout e f.iid attempts recipients) := by
  induction recipients with
  | nil => trivial
  | cons agent rest ih =>
    have hm : FromLog log (eventMsg e f.iid agent) := ⟨f, hf, .event he hwf rfl⟩
    refine bound_bind (bound_publishWithRetry hm attempts) fun err => ?_
    exact bound_bind ih fun _ => trivial

theorem bound_tombstone (hleft : e.eventType = "participant.left") (attempts : Nat) :
    Bound log (tombstone e f.iid attempts) := by
  refine Prog.within_perform trivial fun merr _ => ?_
  cases merr with
  | some err => trivial
  | none => exact bound_publishWithRetry ⟨f, hf, .tombstone he hwf hleft rfl⟩ attempts

theorem bound_publishAll (cfg : Config) (recipients : List String) :
    Bound log (publishAll cfg e f.iid recipients) := by
  refine bound_bind (bound_fanout hf hwf he _ recipients) fun perr => ?_
  cases perr with
  | some perr => trivial
  | none =>
    by_cases hleft : e.eventType = "participant.left"
    · simp only [hleft]
      refine bound_bind (bound_tombstone hf hwf he hleft _) fun terr => ?_
      cases terr with
      | some terr | none => trivial
    · simp only [hleft]
      trivial

end Fact

theorem bound_dlqOrNak (cfg : Config) (d : Delivery) (reason : String) :
    Bound log (dlqOrNak cfg d reason) := by
  unfold dlqOrNak
  split
  · exact ⟨trivial, fun _ _ => trivial⟩
  · refine Prog.within_perform trivial fun res _ => ?_
    cases res with
    | some err => exact ⟨trivial, fun _ _ => trivial⟩
    | none =>
      refine Prog.within_perform trivial fun res _ => ?_
      cases res with
      | some err | none => trivial

theorem bound_abandon (cfg : Config) (d : Delivery) (reason : String) :
    Bound log (abandon cfg d reason) := by
  refine Prog.within_perform trivial fun res _ => ?_
  cases res with
  | some err => exact ⟨trivial, fun _ _ => trivial⟩
  | none => exact bound_dlqOrNak cfg d reason

theorem bound_finish (cfg : Config) (p : Memory) (d : Delivery) (view : ParticipationView) :
    Bound log (finish cfg p d view) := by
  refine Prog.within_perform trivial fun res _ => ?_
  cases res with
  | some err => exact ⟨trivial, fun _ _ => trivial⟩
  | none =>
    refine Prog.within_perform trivial fun res _ => ?_
    cases res with
    | some err => trivial
    | none =>
      refine bound_bind ?_ fun _ => trivial
      unfold maybeSnapshot
      split
      · trivial
      · refine Prog.within_perform trivial fun res _ => ?_
        cases res with
        | some err | none => trivial

theorem bound_project (cfg : Config) (p : Memory) {d : Delivery} {e : Event} (hd : d.fact ∈ log)
    (hwf : d.fact.WellFormed) (he : d.fact.event = some e) : Bound log (project cfg p d e) := by
  refine bound_bind (Prog.within_perform trivial fun _ _ => trivial) fun recipients => ?_
  refine Prog.within_perform trivial fun merr _ => ?_
  cases merr with
  | some err => exact bound_bind (bound_dlqOrNak cfg d _) fun _ => trivial
  | none =>
    refine bound_bind (bound_publishAll hd hwf he cfg recipients) fun reason => ?_
    cases reason with
    | some reason => exact bound_bind (bound_abandon cfg d reason) fun _ => trivial
    | none => exact bound_finish cfg p d _

theorem bound_process (cfg : Config) (p : Memory) {d : Delivery} (hd : d.fact ∈ log) :
    Bound log (process cfg p d) := by
  unfold process
  split
  · exact bound_bind (bound_dlqOrNak cfg d _) fun _ => trivial
  · next e he =>
      split
      · exact bound_bind (bound_dlqOrNak cfg d _) fun _ => trivial
      · next hne =>
          split
          · exact bound_bind (bound_dlqOrNak cfg d _) fun _ => trivial
          · next hiid =>
              have hne := not_or.1 hne
              exact bound_project cfg _ hd ⟨e, he, hne.1, hne.2, hiid⟩ he

theorem within_hydrate {P : Op → Prop} {A : (op : Op) → Ans op → Prop} (hfloor : P .ackFloor)
    (hload : ∀ n, P (.load n)) (hrange : ∀ lo hi, P (.foldRange lo hi)) :
    Prog.Within P A (fun _ => True) hydrate := by
  refine Prog.within_perform hfloor fun floor _ => ?_
  cases floor with
  | error err => trivial
  | ok floor =>
    refine Prog.within_perform (hload _) fun found _ => ?_
    cases found with
    | error err => trivial
    | ok found =>
      dsimp only
      split
      · refine Prog.within_perform (hrange _ _) fun tail _ => ?_
        cases tail with
        | error err | ok tail => trivial
      · trivial

theorem bound_serveLoop (cfg : Config) (turns : Nat) : ∀ p, Bound log (serveLoop cfg turns p) := by
  induction turns with
  | zero => exact fun _ => trivial
  | succ turns ih =>
    intro p
    refine Prog.within_perform trivial fun d hd => ?_
    cases d with
    | error err =>
      refine Prog.within_perform trivial fun res _ => ?_
      cases res with
      | some err => exact ih p
      | none => trivial
    | ok d =>
      refine bound_bind (bound_process cfg p hd) fun out => ?_
      rcases out with ⟨err, p'⟩
      cases err with
      | none => exact ih p'
      | some err =>
        refine Prog.within_perform trivial fun res _ => ?_
        cases res with
        | some err => exact ih p'
        | none => trivial

theorem bound_run (worker : Worker) : Bound log (run worker) := by
  refine bound_bind (within_hydrate trivial (fun _ => trivial) (fun _ _ => trivial)) fun st => ?_
  cases st with
  | none => trivial
  | some st => exact bound_serveLoop _ _ _

end Programs

/-! ## What an operation does to the world -/

section World

variable {log : List Fact} {w w' : World} {r : Request} {max : Option Nat}

def Consumed (w w' : World) : Prop :=
  ∃ fates delivered, w' = { w with fates := fates, delivered := delivered }

theorem Consumed.refl (w : World) : Consumed w w :=
  ⟨_, _, rfl⟩

theorem consumed_settle (w : World) (k : Nat) (fate : Fate) : Consumed w (w.settle k fate) := by
  unfold World.settle
  split
  · exact ⟨_, _, rfl⟩
  · exact .refl w

theorem consumed_giveBack (w : World) (max : Option Nat) (k : Nat) :
    Consumed w (w.giveBack max k) := by
  unfold World.giveBack
  split
  · exact consumed_settle w k .dropped
  · exact .refl w

variable {ch : Choice}

theorem consumed_of_check {a : Option String} (hp : performCheck w ch = some (a, w')) :
    Consumed w w' := by
  rw [(performCheck_cases hp).1]
  exact .refl w

theorem consumed_of_answer {w₁ : World} (h₁ : Consumed w w₁) {a : Option String}
    (hp : performAnswer w w₁ ch = some (a, w')) : Consumed w w' := by
  rcases performAnswer_cases hp with ⟨_, rfl⟩ | ⟨_, rfl | rfl⟩
  · exact h₁
  · exact .refl w'
  · exact h₁

theorem performDeliver_cases {a : Except String Delivery}
    (hp : performDeliver max w ch = some (a, w')) :
    Consumed w w' ∧ ∀ d, a = .ok d → w.log[d.index]? = some d.fact := by
  cases ch with
  | go =>
    simp only [performDeliver] at hp
    split at hp
    · cases hp
    · next f hf =>
        split at hp
        · cases hp
        · cases hp
          refine ⟨⟨_, _, rfl⟩, ?_⟩
          rintro d ⟨⟩
          exact hf
  | fail err =>
    cases hp
    exact ⟨.refl w, by rintro d ⟨⟩⟩
  | _ => cases hp

theorem consumed_of_load {maxSeq : Nat} {a : Except String (Option Snapshot × Nat)}
    (hp : performLoad w maxSeq ch = some (a, w')) : Consumed w w' := by
  unfold performLoad at hp
  repeat' split at hp
  all_goals first
    | cases hp; exact .refl w
    | cases hp

theorem perform_effect {op : Op} {a : Ans op} (hp : (machine max).perform w op ch = some (a, w')) :
    Consumed w w' ∨ ∃ r, op = .request r ∧ (w' = w.serve r ∨ w' = w.send r) := by
  cases op with
  | deliver => exact .inl (performDeliver_cases hp).1
  | load maxSeq => exact .inl (consumed_of_load hp)
  | marshal b | backoff | ctxErr site => exact .inl (consumed_of_check hp)
  | ack k view => exact .inl (consumed_of_answer (consumed_settle w k _) hp)
  | nak k => exact .inl (consumed_of_answer (consumed_giveBack w max k) hp)
  | request r =>
    rcases performRequest_cases hp with ⟨_, _, rfl⟩ | ⟨_, _, rfl | rfl | rfl⟩
    · exact .inr ⟨r, rfl, .inl rfl⟩
    · exact .inl (.refl w')
    · exact .inr ⟨r, rfl, .inl rfl⟩
    · exact .inr ⟨r, rfl, .inr rfl⟩
  | ackFloor | foldRange lo hi | agents v =>
    -- these only read
    simp only [machine, perform] at hp
    repeat' split at hp
    all_goals first
      | cases hp; exact .inl (.refl w)
      | cases hp

theorem tick_effect {t : Tick} (ht : (machine max).tick w t = some w') :
    Consumed w w' ∨ ∃ r ∈ w.sent, w' = w.serve r := by
  cases t with
  | arrive i =>
    simp only [machine, tick] at ht
    split at ht
    · cases ht
    · next r hr =>
        cases ht
        exact .inr ⟨r, List.mem_of_getElem? hr, rfl⟩
  | expire =>
    cases ht
    exact .inl (consumed_giveBack w max _)

theorem mem_feed_serve {m : FeedMsg} (h : m ∈ (w.serve r).feed) : m ∈ w.feed ∨ r = .publish m := by
  cases r with
  | publish m' =>
    by_cases hm : m'.dedup ∈ w.feed.map FeedMsg.dedup
    · exact .inl (by simpa [World.serve, hm] using h)
    · simp only [World.serve, hm] at h
      rcases List.mem_append.1 h with h | h
      · exact .inl h
      · exact .inr (by rw [List.mem_singleton.1 h])
  | dlq r | save seq snap => exact .inl h

/-! ## What is published -/

structure PublishInv (log : List Fact) (w : World) : Prop where
  log_eq : w.log = log
  feed : ∀ m ∈ w.feed, FromLog log m
  sent : ∀ m, .publish m ∈ w.sent → FromLog log m

theorem publishInv_start : PublishInv log (World.start log) where
  log_eq := rfl
  feed := by simp [World.start]
  sent := by simp [World.start]

theorem PublishInv.serve (h : PublishInv log w) (hr : ∀ m, r = .publish m → FromLog log m) :
    PublishInv log (w.serve r) where
  log_eq := (quiet_serve w r).log.trans h.log_eq
  feed := by
    intro m hm
    rcases mem_feed_serve hm with hm | hm
    · exact h.feed m hm
    · exact hr m hm
  sent := by simpa [sent_serve] using h.sent

theorem PublishInv.send (h : PublishInv log w) (hr : ∀ m, r = .publish m → FromLog log m) :
    PublishInv log (w.send r) where
  log_eq := h.log_eq
  feed := h.feed
  sent := by
    intro m hm
    rcases List.mem_append.1 hm with hm | hm
    · exact h.sent m hm
    · exact hr m (List.mem_singleton.1 hm).symm

theorem PublishInv.consumed (h : PublishInv log w) (hw : Consumed w w') : PublishInv log w' := by
  rcases hw with ⟨fates, delivered, rfl⟩
  exact ⟨h.log_eq, h.feed, h.sent⟩

theorem PublishInv.perform (h : PublishInv log w) {op : Op} {a : Ans op}
    (hop : PublishesFrom log op) (hp : (machine max).perform w op ch = some (a, w')) :
    DeliversFrom log op a ∧ PublishInv log w' := by
  refine ⟨?_, ?_⟩
  · cases op with
    | deliver =>
      cases a with
      | error err => trivial
      | ok d =>
        have hfact := (performDeliver_cases hp).2 d rfl
        rw [h.log_eq] at hfact
        exact List.mem_of_getElem? hfact
    | _ => trivial
  · rcases perform_effect hp with hw | ⟨r, rfl, rfl | rfl⟩
    · exact h.consumed hw
    · exact h.serve fun m hm => by subst hm; exact hop
    · exact h.send fun m hm => by subst hm; exact hop

theorem PublishInv.tick (h : PublishInv log w) {t : Tick}
    (ht : (machine max).tick w t = some w') : PublishInv log w' := by
  rcases tick_effect ht with hw | ⟨r, hr, rfl⟩
  · exact h.consumed hw
  · refine h.serve ?_
    rintro m rfl
    exact h.sent m hr

end World

/-! ## Runs -/

def Issued (c : Takeover.Config Ans Worker World Unit) (m : FeedMsg) : Prop :=
  m ∈ c.world.feed ∨ .publish m ∈ c.world.sent ∨ Publishes c m

theorem fromLog_of_issued {P : Policy Op Worker World Choice Tick} {max : Option Nat} {log : List Fact}
    {c : Takeover.Config Ans Worker World Unit}
    (h : Takeover.Reachable (machine max) run P (World.start log) c) {m : FeedMsg} (hm : Issued c m) :
    FromLog log m := by
  rcases h.within publishInv_start bound_run (fun hinv hop _ hp => hinv.perform hop hp)
    (fun hinv ht => hinv.tick ht) with ⟨hinv, hworker⟩
  rcases hm with hm | hm | ⟨th, next, hth, hprog⟩
  · exact hinv.feed m hm
  · exact hinv.sent m hm
  · have hbound := hworker th hth
    rw [hprog] at hbound
    exact hbound.1

end RelayPoint.Projector
