import RelayPoint.Projector.Outline

/-!
# Execution — symbolic execution of the worker

Derives `Outline.sound`: the invariant of an outline holds in every run of the worker, across
deliveries, crashes and takeovers, for every outcome of the ports that the outline allows.
-/

namespace RelayPoint.Projector

open Concurrency Signaling

/-! ## Quiet moves -/

theorem Quiet.refl (w : World) : Quiet w w :=
  ⟨rfl, rfl, rfl, fun _ h => h, fun _ h => h⟩

theorem Quiet.trans {w₁ w₂ w₃ : World} (h : Quiet w₁ w₂) (h' : Quiet w₂ w₃) : Quiet w₁ w₃ :=
  ⟨h'.log.trans h.log, h'.fates.trans h.fates, h'.delivered.trans h.delivered,
    fun _ hm => h'.feed (h.feed hm), fun _ hr => h'.dlq (h.dlq hr)⟩

theorem quiet_serve (w : World) (r : Request) : Quiet w (w.serve r) := by
  cases r with
  | publish m =>
    by_cases hm : m.dedup ∈ w.feed.map FeedMsg.dedup
    · simpa [World.serve, hm] using Quiet.refl w
    · simp only [World.serve, hm]
      exact ⟨rfl, rfl, rfl, List.subset_append_left _ _, fun _ h => h⟩
  | dlq r => exact ⟨rfl, rfl, rfl, fun _ h => h, List.subset_append_left _ _⟩
  | save seq snap => exact ⟨rfl, rfl, rfl, fun _ h => h, fun _ h => h⟩

theorem quiet_send (w : World) (r : Request) : Quiet w (w.send r) :=
  ⟨rfl, rfl, rfl, fun _ h => h, fun _ h => h⟩

variable {w w' : World} {ch : Choice} {a : Option String}

theorem Quiet.stored (h : Quiet w w') {dedup : String} (hs : Stored w dedup) : Stored w' dedup := by
  rcases hs with ⟨m, hm, hid⟩
  exact ⟨m, h.feed hm, hid⟩

theorem Quiet.published (h : Quiet w w') {e : Event} {iid : String} {view : ParticipationView}
    (hp : Published w e iid view) : Published w' e iid view :=
  ⟨fun a ha => h.stored (hp.covered a ha), fun hleft => h.stored (hp.revoked hleft)⟩

theorem Quiet.ackFloor (h : Quiet w w') : w'.ackFloor = w.ackFloor := by
  simp [World.ackFloor, World.ackedPrefix, h.log, h.fates]

theorem Quiet.range (h : Quiet w w') (lo hi : Nat) : w'.range lo hi = w.range lo hi := by
  simp [World.range, h.log]

theorem stored_serve (w : World) (m : FeedMsg) : Stored (w.serve (.publish m)) m.dedup := by
  by_cases hm : m.dedup ∈ w.feed.map FeedMsg.dedup
  · rcases List.mem_map.1 hm with ⟨m', hm', hid⟩
    exact ⟨m', by simpa [World.serve, hm] using hm', hid⟩
  · exact ⟨m, by simp [World.serve, hm], rfl⟩

/-! ## The answers of the ports -/

theorem performCheck_cases (h : performCheck w ch = some (a, w')) :
    w' = w ∧ ((a = none ∧ ch = .go) ∨ ∃ err, a = some err ∧ ch = .fail err) := by
  cases ch with
  | go =>
    cases h
    exact ⟨rfl, .inl ⟨rfl, rfl⟩⟩
  | fail err =>
    cases h
    exact ⟨rfl, .inr ⟨err, rfl, rfl⟩⟩
  | _ => cases h

theorem performRequest_cases {r : Request} (h : performRequest w r ch = some (a, w')) :
    (a = none ∧ ch = .go ∧ w' = w.serve r) ∨
      ((∃ err, a = some err) ∧ ch ≠ .go ∧ (w' = w ∨ w' = w.serve r ∨ w' = w.send r)) := by
  cases ch with
  | go =>
    cases h
    exact .inl ⟨rfl, rfl, rfl⟩
  | fail err =>
    cases h
    exact .inr ⟨⟨err, rfl⟩, by simp, .inl rfl⟩
  | lost err =>
    cases h
    exact .inr ⟨⟨err, rfl⟩, by simp, .inr (.inl rfl)⟩
  | late err =>
    cases h
    exact .inr ⟨⟨err, rfl⟩, by simp, .inr (.inr rfl)⟩
  | _ => cases h

theorem performAnswer_cases {w'' : World} (h : performAnswer w w' ch = some (a, w'')) :
    (a = none ∧ w'' = w') ∨ ((∃ err, a = some err) ∧ (w'' = w ∨ w'' = w')) := by
  cases ch with
  | go =>
    cases h
    exact .inl ⟨rfl, rfl⟩
  | fail err =>
    cases h
    exact .inr ⟨⟨err, rfl⟩, .inl rfl⟩
  | lost err =>
    cases h
    exact .inr ⟨⟨err, rfl⟩, .inr rfl⟩
  | _ => cases h

namespace Outline

variable {max : Option Nat} (O : Outline max)

def discipline : Discipline World where
  Inv := O.Inv
  Rely := Quiet
  Guar _ _ := True
  refl := Quiet.refl
  trans := Quiet.trans

abbrev Ens {α : Type} (Q : α → World → Prop) (prog : Program α) (w : World) : Prop :=
  Ensures (machine max) O.ok O.discipline Q prog w

section Rules

variable {O} {α β : Type} {Q : β → World → Prop} {w : World}

/-! ## Operation rules -/

variable {f : Option String → Program β} {n : Nat} {e : Event} {iid : String}

theorem ens_marshal {b : Body} (h : ∀ err w', Quiet w w' → O.Ens Q (f err) w') :
    O.Ens Q (marshal b >>= f) w := by
  apply ensures_perform
  intro w₁ hq hinv ch a w₂ _ hp
  rcases performCheck_cases hp with ⟨rfl, _⟩
  exact ⟨trivial, hinv, h a w₂ hq⟩

theorem ens_backoff (h : ∀ err w', Quiet w w' → O.Ens Q (f err) w') :
    O.Ens Q (backoff >>= f) w := by
  apply ensures_perform
  intro w₁ hq hinv ch a w₂ _ hp
  rcases performCheck_cases hp with ⟨rfl, _⟩
  exact ⟨trivial, hinv, h a w₂ hq⟩

theorem ens_ctxErr {site : CtxSite} (hgo : ∀ w', Quiet w w' → O.Ens Q (f none) w')
    (hend : ∀ err w', Quiet w w' → O.ok w' (.ctxErr site) (.fail err) → O.Ens Q (f (some err)) w') :
    O.Ens Q (ctxErr site >>= f) w := by
  apply ensures_perform
  intro w₁ hq hinv ch a w₂ hok hp
  rcases performCheck_cases hp with ⟨rfl, ⟨rfl, rfl⟩ | ⟨err, rfl, rfl⟩⟩
  · exact ⟨trivial, hinv, hgo w₂ hq⟩
  · exact ⟨trivial, hinv, hend err w₂ hq hok⟩

theorem ens_agents {v : ParticipationView} {f : List String → Program β}
    (h : ∀ l w', Quiet w w' → l.toFinset = v.agents → O.Ens Q (f l) w') :
    O.Ens Q (agents v >>= f) w := by
  apply ensures_perform
  intro w₁ hq hinv ch a w₂ _ hp
  cases ch with
  | listed l =>
    change (if l.Nodup ∧ l.toFinset = v.agents then some (l, w₁) else none) = some (a, w₂) at hp
    split at hp
    · rename_i hl
      cases hp
      exact ⟨trivial, hinv, h _ w₁ hq hl.2⟩
    · cases hp
  | _ => cases hp

theorem ens_request {r : Request} (hr : O.Sendable r)
    (hgo : ∀ w₁, Quiet w w₁ → Quiet w (w₁.serve r) → O.Ens Q (f none) (w₁.serve r))
    (herr : ∀ err w₁ ch w', Quiet w w₁ → O.ok w₁ (.request r) ch → ch ≠ .go → Quiet w w' →
      O.Ens Q (f (some err)) w') : O.Ens Q (request r >>= f) w := by
  apply ensures_perform
  intro w₁ hq hinv ch a w₂ hok hp
  rcases performRequest_cases hp with ⟨rfl, rfl, rfl⟩ | ⟨⟨err, rfl⟩, hch, hw⟩
  · exact ⟨trivial, O.serve hr hinv, hgo w₁ hq (hq.trans (quiet_serve w₁ r))⟩
  · rcases hw with rfl | rfl | rfl
    · exact ⟨trivial, hinv, herr err w₂ ch w₂ hq hok hch hq⟩
    · exact ⟨trivial, O.serve hr hinv, herr err w₁ ch _ hq hok hch (hq.trans (quiet_serve w₁ r))⟩
    · exact ⟨trivial, O.send hr hinv, herr err w₁ ch _ hq hok hch (hq.trans (quiet_send w₁ r))⟩

/-! ## Publishing -/

theorem ens_retryPublish {m : FeedMsg} (hm : O.Sendable (.publish m)) (n : Nat) :
    ∀ {err : String} {w : World}, O.Ens (fun err' w' => Quiet w w' ∧
      (err' = none → Stored w' m.dedup)) (retryPublish m err n) w := by
  induction n with
  | zero =>
    intro err w
    exact ensures_pure ⟨Quiet.refl w, by simp⟩
  | succ n ih =>
    intro err w
    apply ens_backoff
    intro cerr w₁ hq₁
    cases cerr with
    | some cerr => exact ensures_pure ⟨hq₁, by simp⟩
    | none =>
      apply ens_request hm
      · intro w₂ _ hq
        exact ensures_pure ⟨hq₁.trans hq, fun _ => stored_serve w₂ m⟩
      · intro err' _ _ w₃ _ _ _ hq₃
        refine Ensures.mono ?_ (ih (w := w₃))
        rintro a w' ⟨hq', hstored⟩
        exact ⟨(hq₁.trans hq₃).trans hq', hstored⟩

theorem ens_publishWithRetry {m : FeedMsg} (hm : O.Sendable (.publish m)) (hn : 0 < n) :
    O.Ens (fun err w' => Quiet w w' ∧ (err = none → Stored w' m.dedup))
      (publishWithRetry m n) w := by
  cases n with
  | zero => omega
  | succ n =>
    apply ens_request hm
    · intro w₁ _ hq
      exact ensures_pure ⟨hq, fun _ => stored_serve w₁ m⟩
    · intro err _ _ w₁ _ _ _ hq₁
      refine Ensures.mono ?_ (ens_retryPublish hm n )
      rintro a w' ⟨hq', hstored⟩
      exact ⟨hq₁.trans hq', hstored⟩

theorem ens_fanout (hn : 0 < n) (recipients : List String) :
    ∀ {w : World}, (∀ a ∈ recipients, O.Sendable (.publish (eventMsg e iid a))) →
      O.Ens (fun err w' => Quiet w w' ∧ (err = none →
        ∀ a ∈ recipients, Stored w' (eventID e.tenantId a iid e.sequence)))
        (fanout e iid n recipients) w := by
  induction recipients with
  | nil =>
    intro w _
    exact ensures_pure ⟨Quiet.refl w, by simp⟩
  | cons a rest ih =>
    intro w hsend
    apply ensures_bind
    refine Ensures.mono ?_ (ens_publishWithRetry (hsend a (by simp)) hn)
    rintro err w₁ ⟨hq₁, hstored⟩
    apply ensures_bind
    refine Ensures.mono ?_ (ih fun b hb => hsend b (by simp [hb]))
    rintro err' w₂ ⟨hq₂, hrest⟩
    refine ensures_pure ⟨hq₁.trans hq₂, ?_⟩
    intro hnone b hb
    rcases Option.or_eq_none_iff.1 hnone with ⟨herr, herr'⟩
    rcases List.mem_cons.1 hb with rfl | hb
    · exact hq₂.stored (hstored herr)
    · exact hrest herr' b hb

theorem ens_tombstone (hn : 0 < n) (hsend : O.Sendable (.publish (tombstoneMsg e iid))) :
    O.Ens (fun err w' => Quiet w w' ∧ (err = none →
      Stored w' (tombstoneID e.tenantId e.actorId iid e.sequence)))
      (Projector.tombstone e iid n) w := by
  apply ens_marshal
  intro merr w₁ hq₁
  cases merr with
  | some merr => exact ensures_pure ⟨hq₁, by simp⟩
  | none =>
    refine Ensures.mono ?_ (ens_publishWithRetry hsend hn )
    rintro err w' ⟨hq', hstored⟩
    exact ⟨hq₁.trans hq', hstored⟩

theorem ens_coveredBy {v : ParticipationView} {s : Int} :
    O.Ens (fun l w' => Quiet w w' ∧ ∀ a, a ∈ l ↔ covered (v.intervalsOf a) s = true)
      (coveredBy v s) w := by
  apply ens_agents
  intro l w' hq hl
  refine ensures_pure ⟨hq, ?_⟩
  intro a
  constructor
  · intro ha
    exact (List.mem_filter.1 ha).2
  · intro ha
    refine List.mem_filter.2 ⟨?_, ha⟩
    have hkey := ParticipationView.mem_agents_of_covered ha
    rw [← hl] at hkey
    simpa using hkey

theorem ens_publishAll {cfg : Config} (hcfg : 0 < cfg.publishRetry) {view : ParticipationView}
    {recipients : List String}
    (hall : ∀ a, a ∈ recipients ↔ covered (view.intervalsOf a) e.sequence = true)
    (hsend : ∀ a ∈ recipients, O.Sendable (.publish (eventMsg e iid a)))
    (htomb : e.eventType = "participant.left" → O.Sendable (.publish (tombstoneMsg e iid))) :
    O.Ens (fun reason w' => Quiet w w' ∧ (reason = none → Published w' e iid view))
      (publishAll cfg e iid recipients) w := by
  have hn : 0 < cfg.publishRetry.toNat := by omega
  apply ensures_bind
  refine Ensures.mono ?_ (ens_fanout hn recipients hsend)
  rintro perr w₁ ⟨hq₁, hstored⟩
  cases perr with
  | some perr => exact ensures_pure ⟨hq₁, by simp⟩
  | none =>
    have hcovered : ∀ a, covered (view.intervalsOf a) e.sequence = true →
        Stored w₁ (eventID e.tenantId a iid e.sequence) := by
      intro a ha
      exact hstored rfl a ((hall a).2 ha)
    by_cases hleft : e.eventType = "participant.left"
    · simp only [hleft]
      apply ensures_bind
      refine Ensures.mono ?_ (ens_tombstone hn (htomb hleft) )
      rintro terr w₂ ⟨hq₂, hrevoked⟩
      cases terr with
      | some terr => exact ensures_pure ⟨hq₁.trans hq₂, by simp⟩
      | none =>
        refine ensures_pure ⟨hq₁.trans hq₂, fun _ => ⟨?_, fun _ => hrevoked rfl⟩⟩
        intro a ha
        exact hq₂.stored (hcovered a ha)
    · simp only [hleft]
      exact ensures_pure ⟨hq₁, fun _ => ⟨hcovered, fun h => absurd h hleft⟩⟩

/-! ## The ends of a delivery -/

variable {st : State} {d : Delivery} {cfg : Config}

theorem ens_nak (hheld : O.Held st d w) (hagain : O.Again d) :
    O.Ens (fun _ w' => O.Head st w') (nak d) w := by
  intro w₁ hq hinv ch a w₂ _ hp
  have hheld₁ := O.held_quiet hq hheld
  rcases O.givenBack hinv hheld₁ hagain with ⟨hinv', hhead'⟩
  rcases performAnswer_cases hp with ⟨_, rfl⟩ | ⟨_, rfl | rfl⟩
  · exact ⟨trivial, hinv', hhead'⟩
  · exact ⟨trivial, hinv, O.head_of_held hheld₁⟩
  · exact ⟨trivial, hinv', hhead'⟩

theorem ens_dlqOrNak (hcfg : O.okConfig cfg) (reason : String) (hheld : O.Held st d w) :
    O.Ens (fun _ w' => O.Head st w') (dlqOrNak cfg d reason) w := by
  unfold dlqOrNak
  split
  · rename_i hlt
    exact ens_nak hheld (O.again_config hcfg hlt)
  · apply ens_request (O.dlq reason hheld)
    · intro w₁ hq hq'
      apply ensures_bind
      intro w₂ hq₂ hinv₂ ch a w₃ _ hp
      have hheld₂ := O.held_quiet (hq'.trans hq₂) hheld
      have hrecord : d.record reason ∈ w₂.dlq := hq₂.dlq (by simp [World.serve])
      rcases O.deadLettered hinv₂ hheld₂ hrecord with ⟨hinv', hhead'⟩
      rcases performAnswer_cases hp with ⟨rfl, rfl⟩ | ⟨⟨err, rfl⟩, rfl | rfl⟩
      · exact ⟨trivial, hinv', hhead'⟩
      · exact ⟨trivial, hinv₂, O.head_of_held hheld₂⟩
      · exact ⟨trivial, hinv', hhead'⟩
    · intro err w₁ ch w₂ hq₁ hok hch hq₂
      exact ens_nak (O.held_quiet hq₂ hheld) (O.again_dlq (O.held_quiet hq₁ hheld) hok hch)

theorem ens_abandon (hcfg : O.okConfig cfg) (reason : String) (hheld : O.Held st d w) :
    O.Ens (fun _ w' => O.Head st w') (abandon cfg d reason) w := by
  apply ens_ctxErr
  · intro w₁ hq
    exact ens_dlqOrNak hcfg reason (O.held_quiet hq hheld)
  · intro err w₁ hq hok
    have hheld₁ := O.held_quiet hq hheld
    exact ens_nak hheld₁ (O.again_ctx hheld₁ (by simp) hok)

theorem ens_maybeSnapshot {p : Memory} {seq : Nat} (hsave : O.Sendable (.save seq p.st.snapshot))
    (hhead : O.Head p.st w) : O.Ens (fun p' w' => O.Head p'.st w') (maybeSnapshot cfg p seq) w := by
  unfold maybeSnapshot
  split
  · exact ensures_pure hhead
  · apply ens_request hsave
    · intro w₁ _ hq
      exact ensures_pure (O.head_quiet hq hhead)
    · intro err _ _ w₁ _ _ _ hq
      exact ensures_pure (O.head_quiet hq hhead)

variable {p : Memory} {e : Event}

theorem ens_finish (hwf : d.fact.WellFormed) (he : d.fact.event = some e) (hheld : O.Held p.st d w)
    (hpub : Published w e d.fact.iid (p.st.view (viewKey e d.fact.iid))) :
    O.Ens (fun out w' => O.Head out.2.st w')
      (finish cfg p d (p.st.view (viewKey e d.fact.iid))) w := by
  apply ens_ctxErr
  · intro w₁ hq₁
    apply ensures_bind
    intro w₂ hq₂ hinv₂ ch a w₃ _ hp
    have hq := hq₁.trans hq₂
    have hheld₂ := O.held_quiet hq hheld
    rcases O.acked hinv₂ hheld₂ hwf he (hq.published hpub) with ⟨hinv', hhead'⟩
    rcases performAnswer_cases hp with ⟨rfl, rfl⟩ | ⟨⟨err, rfl⟩, rfl | rfl⟩
    · refine ⟨trivial, hinv', ?_⟩
      apply ensures_bind
      exact Ensures.mono (fun _ _ h => h) (ens_maybeSnapshot (O.save hheld hwf) hhead')
    · exact ⟨trivial, hinv₂, O.head_of_held hheld₂⟩
    · exact ⟨trivial, hinv', hhead'⟩
  · intro err w₁ hq hok
    have hheld₁ := O.held_quiet hq hheld
    apply ensures_bind
    exact Ensures.mono (fun _ _ h => h) (ens_nak hheld₁ (O.again_ctx hheld₁ (by simp) hok))

theorem ens_project (hcfg : O.okConfig cfg) (hretry : 0 < cfg.publishRetry)
    (hwf : d.fact.WellFormed) (he : d.fact.event = some e) (hheld : O.Held p.st d w) :
    O.Ens (fun out w' => O.Head out.2.st w') (project cfg p d e) w := by
  apply ensures_bind
  refine Ensures.mono ?_ ens_coveredBy
  rintro recipients w₁ ⟨hq₁, hall⟩
  apply ens_marshal
  intro merr w₂ hq₂
  have hheld₂ := O.held_quiet (hq₁.trans hq₂) hheld
  cases merr with
  | some merr =>
    apply ensures_bind
    exact Ensures.mono (fun _ _ h => h) (ens_dlqOrNak hcfg _ hheld₂)
  | none =>
    apply ensures_bind
    refine Ensures.mono ?_ (ens_publishAll hretry hall
      (fun a ha => O.publish hheld hwf he ((hall a).1 ha))
      (fun hleft => O.tombstone hheld hwf he hleft) )
    rintro reason w₃ ⟨hq₃, hpub⟩
    have hheld₃ := O.held_quiet hq₃ hheld₂
    cases reason with
    | some reason =>
      apply ensures_bind
      exact Ensures.mono (fun _ _ h => h) (ens_abandon hcfg reason hheld₃)
    | none => exact ens_finish hwf he hheld₃ (hpub rfl)

theorem ens_process (hcfg : O.okConfig cfg) (hretry : 0 < cfg.publishRetry)
    (hgiven : O.Given p.st d w) : O.Ens (fun out w' => O.Head out.2.st w') (process cfg p d) w := by
  have hdead : ∀ reason, ¬ d.fact.WellFormed →
      O.Ens (fun out w' => O.Head out.2.st w')
        (do return (← dlqOrNak cfg d reason, p) : Program (Option String × Memory)) w := by
    intro reason hbad
    apply ensures_bind
    exact Ensures.mono (fun _ _ h => h) (ens_dlqOrNak hcfg reason (O.malformed hgiven hbad))
  unfold process
  split
  · rename_i hnone
    apply hdead
    rintro ⟨e, he, _⟩
    simp [hnone] at he
  · rename_i e he
    split
    · rename_i hempty
      apply hdead
      rintro ⟨e', he', ht, htype, _⟩
      rw [he] at he'
      cases he'
      exact hempty.elim ht htype
    · rename_i hne
      split
      · rename_i hiid
        apply hdead
        rintro ⟨_, _, _, _, h⟩
        exact h hiid
      · rename_i hiid
        have hne := not_or.1 hne
        have hwf : d.fact.WellFormed := ⟨e, he, hne.1, hne.2, hiid⟩
        exact ens_project hcfg hretry hwf he (O.applied hgiven hwf he)

/-! ## The worker -/

theorem ens_deliver {f : Except String Delivery → Program β} (hhead : O.Head st w)
    (hgo : ∀ d w', O.Given st d w' → O.Ens Q (f (.ok d)) w')
    (herr : ∀ err w', O.Head st w' → O.Ens Q (f (.error err)) w') : O.Ens Q (deliver >>= f) w := by
  apply ensures_perform
  intro w₁ hq hinv ch a w₂ _ hp
  have hhead₁ := O.head_quiet hq hhead
  change performDeliver max w₁ ch = some (a, w₂) at hp
  cases ch with
  | go =>
    simp only [performDeliver] at hp
    split at hp
    · cases hp
    · rename_i fact hfact
      split at hp
      · cases hp
      · rename_i hmax
        cases hp
        rcases O.delivered hinv hhead₁ hfact hmax with ⟨hinv', hgiven⟩
        exact ⟨trivial, hinv', hgo _ _ hgiven⟩
  | fail err =>
    cases hp
    exact ⟨trivial, hinv, herr err _ hhead₁⟩
  | _ => cases hp

def goOn (cfg : Config) (turns : Nat) (p : Memory) : Program Unit := do
  match ← ctxErr .loop with
  | some _ => serveLoop cfg turns p
  | none => return ()

theorem ens_serveLoop (hcfg : O.okConfig cfg) (hretry : 0 < cfg.publishRetry) (turns : Nat) :
    ∀ {p : Memory} {w : World}, O.Head p.st w →
      O.Ens (fun _ _ => True) (serveLoop cfg turns p) w := by
  induction turns with
  | zero =>
    intro p w _
    exact ensures_pure trivial
  | succ turns ih =>
    -- after an error the worker goes on, if at all, from the same memory
    have onError : ∀ {p : Memory} {w : World}, O.Head p.st w →
        O.Ens (fun _ _ => True) (goOn cfg turns p) w := by
      intro p w hhead
      apply ens_ctxErr
      · intro w₁ _
        exact ensures_pure trivial
      · intro err w₁ hq _
        exact ih (O.head_quiet hq hhead)
    intro p w hhead
    apply ens_deliver hhead
    · intro d w₁ hgiven
      apply ensures_bind
      refine Ensures.mono ?_ (ens_process hcfg hretry hgiven)
      rintro ⟨err, p'⟩ w₂ hhead₂
      cases err with
      | none => exact ih hhead₂
      | some err => exact onError hhead₂
    · intro err w₁ hhead₁
      exact onError hhead₁

def hydrateFrom (snap : Option Snapshot) (snapSeq floor : Nat) : Program (Option State) := do
  let st := State.new.restore snap
  if snapSeq < floor then
    match ← foldRange snapSeq floor with
    | .error _ => return none
    | .ok tail => return some (tail.foldl State.applyFact st)
  else return some st

theorem ens_hydrate : O.Ens (fun st w' => ∀ s ∈ st, O.Head s w') hydrate w := by
  apply ensures_perform
  intro w₁ _ hinv₁ ch a w₂ _ hp
  cases ch with
  | fail err =>
    cases hp
    exact ⟨trivial, hinv₁, ensures_pure (by simp)⟩
  | go =>
    cases hp
    refine ⟨trivial, hinv₁, ?_⟩
    apply ensures_perform
    intro w₃ hq₃ hinv₃ ch a w₄ _ hp
    change performLoad w₃ w₁.ackFloor ch = some (a, w₄) at hp
    -- the two ways in which a load succeeds
    have found : ∀ snap snapSeq, Loaded w₃ snap snapSeq → snapSeq ≤ w₁.ackFloor →
        O.Ens (fun st w' => ∀ s ∈ st, O.Head s w') (hydrateFrom snap snapSeq w₁.ackFloor) w₃ := by
      intro snap snapSeq hloaded hle
      unfold hydrateFrom
      rw [← hq₃.ackFloor] at hle
      have hhead := O.hydrated hinv₃ hloaded hle
      by_cases hlt : snapSeq < w₁.ackFloor
      · simp only [hlt]
        apply ensures_perform
        intro w₅ hq₅ hinv₅ ch a w₆ _ hp
        cases ch with
        | go =>
          cases hp
          refine ⟨trivial, hinv₅, ensures_pure ?_⟩
          have hhead₅ := O.head_quiet hq₅ hhead
          simpa [hydratedState, hq₃.ackFloor, hlt, hq₅.range] using hhead₅
        | fail err =>
          cases hp
          exact ⟨trivial, hinv₅, ensures_pure (by simp)⟩
        | _ => cases hp
      · simp only [hlt]
        exact ensures_pure (by simpa [hydratedState, hq₃.ackFloor, hlt] using hhead)
    cases ch with
    | fail err =>
      cases hp
      exact ⟨trivial, hinv₃, ensures_pure (by simp)⟩
    | found i =>
      cases i with
      | none =>
        cases hp
        exact ⟨trivial, hinv₃, found none 0 (.inl ⟨rfl, rfl⟩) (Nat.zero_le _)⟩
      | some i =>
        simp only [performLoad] at hp
        split at hp
        · cases hp
        · rename_i seq snap hget
          split at hp
          · rename_i hle
            cases hp
            exact ⟨trivial, hinv₃, found (some snap) seq
              (.inr ⟨snap, rfl, List.mem_of_getElem? hget⟩) hle⟩
          · cases hp
    | _ => cases hp
  | _ => cases hp

theorem ens_run {worker : Worker} (hcfg : O.okConfig worker.cfg.withDefaults) :
    O.Ens (fun _ _ => True) (run worker) w := by
  apply ensures_bind
  refine Ensures.mono ?_ ens_hydrate
  intro st w' hhead
  cases st with
  | none => exact ensures_pure trivial
  | some st => exact ens_serveLoop hcfg (Config.publishRetry_pos _) worker.turns (hhead st rfl)

end Rules

/-! ## Soundness -/

def policy : Policy Op Worker World Choice Tick where
  spawn worker := O.okConfig worker.cfg.withDefaults
  op _ w op ch := O.ok w op ch
  tick w t := t = .expire → O.okExpire w

theorem sound {log : List Fact} (hstart : O.Inv (World.start log))
    {c : Takeover.Config Ans Worker World Unit}
    (h : Takeover.Reachable (machine max) run O.policy (World.start log) c) : O.Inv c.world := by
  refine (h.holds (D := O.discipline) (Q := fun _ _ _ _ => True) hstart ?_ ?_).1
  · intro worker w hcfg _
    exact ens_run hcfg
  · intro w t w' ht hinv hstep
    cases t with
    | arrive i =>
      simp only [machine, tick] at hstep
      cases hr : w.sent[i]? with
      | none => simp [hr] at hstep
      | some r =>
        obtain rfl : w.serve r = w' := by simpa [hr] using hstep
        exact ⟨quiet_serve w r, O.arrive hinv (List.mem_of_getElem? hr)⟩
    | expire =>
      cases hstep
      have hmax := O.expire (ht rfl)
      have : w.giveBack max w.cursor = w := by simp [World.giveBack, hmax]
      rw [this]
      exact ⟨Quiet.refl w, hinv⟩

end Outline

end RelayPoint.Projector
