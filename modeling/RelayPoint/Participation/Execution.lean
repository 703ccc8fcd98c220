import RelayPoint.Participation.Apply
import RelayPoint.Participation.Ledger

/-!
# Execution — `Apply` step by step

The programs of `Apply.lean` are followed once, operation by operation: they keep the store coherent,
and a message leaves the queue only when its command is kept.
-/

namespace RelayPoint.Participation

open Concurrency Journal

def discipline : Discipline World where
  Inv := Coherent
  Rely := Grows
  Guar := Grows
  refl := Grows.refl
  trans := Grows.trans

/-! ## Kept commands -/

/-- The head has reached the command's version, or the command is in the dead-letter queue. -/
def Kept (w : World) (r : Record) : Prop :=
  r.version ≤ w.headVersion r.key ∨
    ∃ row ∈ w.dlq.rows, row.key = r.key ∧ row.eventId = r.identity.eventId

variable {w w' : World} {α : Type} {a : Except Err α} {ch : Choice}

theorem Kept.mono {r : Record} (h : Kept w r) (hg : Grows w w') : Kept w' r := by
  rcases h with hle | ⟨row, hrow, hkey⟩
  · exact .inl (hle.trans (hg.head r.key))
  · exact .inr ⟨row, hg.dlq.subset hrow, hkey⟩

/-- An outcome that acks or terminates the message comes with a kept command, unless `E`. -/
def Settled (E : Prop) (r : Record) (o : Outcome) (w : World) : Prop :=
  disposition o ≠ .nak → Kept w r ∨ E

section Settled

variable {E : Prop} {r : Record} {w : World}

theorem settled_of_kept {o : Outcome} (h : Kept w r) : Settled E r o w :=
  fun _ => .inl h

theorem settled_of_retry {result : Option Result} {e : Err}
    (hresult : result ≠ some .compareAndSetLost) (he : permanent e = false) :
    Settled E r ⟨result, some e⟩ w := by
  intro h
  exact absurd (by simp [disposition, hresult, he]) h

end Settled

/-! ## Careful steps -/

def fails {α : Type} (s : Sentinel) : Except Err α → Bool
  | .error e => s ∈ e
  | .ok _ => false

/-- Nothing stands in the way of a reconcile: the head has not moved, and the interaction has either
a pending intent for this same request, or none and no leftover of an earlier one. -/
def World.startable (w : World) (intent : Intent) (held : Record) : Bool :=
  w.headVersion intent.key = intent.observedVersion &&
    match w.pendingIntent intent.key with
    | some row => row.observedVersion = intent.observedVersion &&
        row.requestedFrom = intent.requestedFrom && row.requestedTo = intent.requestedTo &&
        row.heldEventId = held.identity.eventId && row.heldHash = held.identity.hash
    | none => (w.pending.insert (.of intent held)).isSome && (w.intents.insert (.of intent held)).isSome

def World.exhausted (w : World) (intent : Intent) (held : Record) : Bool :=
  w.lockIntent intent &&
    (w.pendingInput intent.key.tenantId held.identity.eventId).any fun input => 2 ≤ input.attempts

/-- The condition on a step of a reconcile, while the head is still below the version it is for. -/
def careful (w : World) : Op → Choice → Bool
  | .beginReconcile intent held, .go =>
    held.version ≤ w.headVersion intent.key || w.startable intent held
  | .replay intent held, .replayed (.ok answer) =>
    held.version ≤ w.headVersion intent.key ||
      ! fails .divergentHistory (validateReplay answer intent held)
  | .snapshot intent held, .snapshotted (.ok answer) =>
    held.version ≤ w.headVersion intent.key ||
      ! fails .invalid (validateSnapshot answer intent held)
  | .installReconcile intent _ _, .go =>
    intent.requestedTo ≤ w.headVersion intent.key || w.lockIntent intent
  | .installSnapshot intent _ held, .go =>
    held.version ≤ w.headVersion intent.key || w.lockIntent intent
  | .failReconcile intent held cause, .fail =>
    held.version ≤ w.headVersion intent.key || ! permanent cause
  | .failReconcile intent held cause, _ =>
    held.version ≤ w.headVersion intent.key || ! permanent cause || w.exhausted intent held
  | _, _ => true

variable {intent : Intent} {held : Record} {tx : Except Err (α × World)}

theorem World.startable_spec (h : w.startable intent held = true) :
    (∀ e, Store.beginReconcile w intent held = .error e → e = []) ∧
      ∀ intent' b w', Store.beginReconcile w intent held = .ok ((intent', b), w') →
        b = true ∧ intent'.requestedFrom = intent.requestedFrom ∧
          intent'.requestedTo = intent.requestedTo := by
  unfold World.startable at h
  simp only [Bool.and_eq_true, decide_eq_true_eq] at h
  rcases h with ⟨hhead, hrest⟩
  cases hrow : w.pendingIntent intent.key with
  | some row =>
    rw [hrow] at hrest
    simp only [Bool.and_eq_true, decide_eq_true_eq] at hrest
    obtain ⟨⟨⟨⟨hobs, hfrom⟩, hto⟩, hid⟩, hhash⟩ := hrest
    refine ⟨fun e he => ?_, fun intent' b w' ho => ?_⟩
    · simp [Store.beginReconcile, hhead, hrow, hobs, hid, hhash] at he
    · simp only [Store.beginReconcile, hhead, hrow, hobs, hid, hhash, ne_eq] at ho
      obtain ⟨⟨rfl, rfl⟩, _⟩ := ho
      exact ⟨rfl, hfrom, hto⟩
  | none =>
    rw [hrow] at hrest
    simp only [Bool.and_eq_true, Option.isSome_iff_exists] at hrest
    rcases hrest with ⟨⟨pending, hpending⟩, intents, hintents⟩
    -- What can still fail are the bounds of the columns.
    refine ⟨fun e he => ?_, fun intent' b w' ho => ?_⟩
    · simp only [Store.beginReconcile, hrow, hpending, hintents] at he
      split_ifs at he
      all_goals exact (Except.error.inj he).symm
    · simp only [Store.beginReconcile, hrow, hpending, hintents, ne_eq] at ho
      split_ifs at ho
      cases ho
      exact ⟨rfl, rfl, rfl⟩

theorem World.exhausted_spec (h : w.exhausted intent held = true)
    (hfits : fitsBigint held.version = true) :
    ∃ w', Store.failReconcile w intent held = .ok (true, w') := by
  unfold World.exhausted at h
  simp only [Bool.and_eq_true] at h
  rcases (Option.any_eq_true _ _).1 h.2 with ⟨input, hinput, hattempts⟩
  have hattempts : ¬ input.attempts + 1 < 3 := by
    have := of_decide_eq_true hattempts
    omega
  have haudit : ∃ w', insertAudit (w.lockHead intent.key) intent.key intent.token held
      .reconcileExhausted = .ok w' := insertAudit_total hfits
  rcases haudit with ⟨w', haudit⟩
  simp [Store.failReconcile, h.1, hinput, hattempts, haudit]

/-! ## Answers -/

theorem readAnswer_cases {answer : Except Err α} (h : readAnswer w answer ch = some (a, w')) :
    w' = w ∧ (a = answer ∨ a = .error []) := by
  cases ch with
  | go =>
    cases h
    exact ⟨rfl, .inl rfl⟩
  | fail =>
    cases h
    exact ⟨rfl, .inr rfl⟩
  | _ => cases h

theorem transact_cases (h : transact w tx ch = some (a, w')) :
    (w' = w ∧ ∃ e, a = .error e ∧ (e = [] ∧ ch = .fail ∨ tx = .error e ∧ ch = .go)) ∨
      ∃ b, tx = .ok (b, w') ∧ (a = .ok b ∧ ch = .go ∨ a = .error [] ∧ ch = .lost) := by
  cases ch with
  | go =>
    cases tx with
    | error e =>
      cases h
      exact .inl ⟨rfl, e, rfl, .inr ⟨rfl, rfl⟩⟩
    | ok b =>
      cases h
      exact .inr ⟨b.1, rfl, .inl ⟨rfl, rfl⟩⟩
  | fail =>
    cases h
    exact .inl ⟨rfl, [], rfl, .inl ⟨rfl, rfl⟩⟩
  | lost =>
    cases tx with
    | error e => cases h
    | ok b =>
      cases h
      exact .inr ⟨b.1, rfl, .inr ⟨rfl, rfl⟩⟩
  | _ => cases h

theorem transact_plain (herr : ∀ {e}, tx = .error e → e = []) (h : transact w tx ch = some (a, w'))
    :
    (w' = w ∧ a = .error []) ∨
      ∃ b, tx = .ok (b, w') ∧ (a = .ok b ∧ ch = .go ∨ a = .error [] ∧ ch = .lost) := by
  rcases transact_cases h with ⟨hw, e, rfl, ⟨rfl, _⟩ | ⟨htx, _⟩⟩ | hcommit
  · exact .inl ⟨hw, rfl⟩
  · exact .inl ⟨hw, by rw [herr htx]⟩
  · exact .inr hcommit

/-! ## Loading -/

/-- A fold that was read: if the head is still where it was, so are the participants. -/
structure Loaded (w : World) (fold : Fold) : Prop where
  le : fold.version ≤ w.headVersion fold.key
  participants : w.headVersion fold.key = fold.version →
    w.participants fold.key = fold.participants

theorem Loaded.mono {fold : Fold} (h : Loaded w fold) (hg : Grows w w') :
    Loaded w' fold where
  le := h.le.trans (hg.head fold.key)
  participants := by
    intro hsame
    have hle := h.le
    have hhead := hg.head fold.key
    rw [hg.participants fold.key (by omega)]
    exact h.participants (by omega)

theorem Loaded.foldsHead {fold final : Fold} {records : List Record} (h : Loaded w fold)
    (hsame : w.headVersion fold.key = fold.version) (hkeys : ∀ r ∈ records, r.key = fold.key)
    (hfold : foldRecords fold records = .ok final) :
    final.key = fold.key ∧ FoldsHead w records final := by
  have hf := foldRecords_ok hfold
  have hkey : final.key = fold.key := hf.key hkeys
  refine ⟨hkey, ?_, ?_, ?_, ?_⟩
  · simpa [hkey] using hkeys
  · simpa [hkey, hsame] using hf.consecutive
  · simp [hkey, hsame, hf.version]
  · simp [hkey, h.participants hsame, hf.participants]

def LoadPost (key : Key) (version : Nat) : Except Err (Fold × Option Identity) → World → Prop
  | .error e, _ => permanent e = false
  | .ok (fold, _), w => fold.key = key ∧ fitsBigint version = true ∧ Loaded w fold

section Walk

variable {ok : World → Op → Choice → Prop} {key : Key} {version : Nat} {w : World} {fold : Fold}

theorem ens_loadLedger (hv : version ≠ 0) (hkey : fold.key = key) (hl : Loaded w fold) :
    Ensures machine ok discipline (LoadPost key version) (loadLedger fold key version) w := by
  unfold loadLedger
  rw [if_neg hv]
  refine ensures_perform ?_
  intro w₁ hg hinv ch a w₂ _ hp
  rcases readAnswer_cases hp with ⟨rfl, ha⟩
  refine ⟨Grows.refl _, hinv, ?_⟩
  by_cases hfits : fitsBigint version = true
  · rcases ha with rfl | rfl
    · simpa only [hfits, if_true] using ensures_pure ⟨hkey, hfits, hl.mono hg⟩
    · exact ensures_pure rfl
  · rcases ha with rfl | rfl
    · simp only [hfits]
      exact ensures_pure rfl
    · exact ensures_pure rfl

theorem ens_load (hv : version ≠ 0) :
    Ensures machine ok discipline (LoadPost key version) (load key version) w := by
  refine ensures_perform ?_
  intro w₁ _ hinv ch a w₂ _ hp
  rcases readAnswer_cases hp with ⟨rfl, rfl | rfl⟩
  · refine ⟨Grows.refl _, hinv, ?_⟩
    cases hrow : w₂.heads key with
    | none =>
      have hzero : w₂.headVersion key = 0 := by simp [World.headVersion, hrow]
      rcases hinv.represents key with ⟨H, hH⟩
      exact ens_loadLedger hv rfl ⟨Nat.zero_le _, fun _ => hH.participants_of_zero hzero⟩
    | some row =>
      -- The check constraint rules out a head without an identity.
      have hcheck : ¬ (0 < row.version ∧ row.identity = none) := by
        rintro ⟨hpos, hnone⟩
        exact hpos.ne' (row.check.2 hnone)
      have hversion : row.version = w₂.headVersion key := by simp [World.headVersion, hrow]
      simp only [hcheck]
      refine ensures_perform ?_
      intro w₃ hg₃ hinv₃ ch a w₄ _ hp
      rcases readAnswer_cases hp with ⟨rfl, rfl | rfl⟩
      · refine ⟨Grows.refl _, hinv₃, ens_loadLedger hv rfl ⟨?_, fun _ => rfl⟩⟩
        exact hversion.le.trans (hg₃.head key)
      · exact ⟨Grows.refl _, hinv₃, ensures_pure rfl⟩
  · exact ⟨Grows.refl _, hinv, ensures_pure rfl⟩

end Walk

/-! ## Reconciling -/

section Reconcile

variable {E : Prop} {ok : World → Op → Choice → Prop}
variable (hok : ∀ w op ch, ok w op ch → E ∨ careful w op ch = true)
variable {w : World} {fold : Fold} {intent : Intent} {held : Record} {records : List Record}
include hok

theorem ens_failReconcile {cause : Err} (hkey : intent.key = held.key)
    (hfits : fitsBigint held.version = true) :
    Ensures machine ok discipline (Settled E held) (failReconcile intent held cause) w := by
  refine ensures_perform ?_
  intro w₁ _ hinv ch a w₂ hstep hp
  have hcareful : permanent cause = true → (Kept w₁ held ∨ E) ∨
      ch ≠ .fail ∧ ∃ w', Store.failReconcile w₁ intent held = .ok (true, w') := by
    intro hperm
    rcases hok w₁ _ ch hstep with hE | hc
    · exact .inl (.inr hE)
    · cases ch with
      | fail =>
        have hle : held.version ≤ w₁.headVersion intent.key := by simpa [careful, hperm] using hc
        exact .inl (.inl (.inl (hkey ▸ hle)))
      | _ =>
        have hle : held.version ≤ w₁.headVersion intent.key ∨ w₁.exhausted intent held = true := by
          simpa [careful, hperm] using hc
        rcases hle with hle | hex
        · exact .inl (.inl (.inl (hkey ▸ hle)))
        · exact .inr ⟨by simp, World.exhausted_spec hex hfits⟩
  rcases transact_cases hp with ⟨rfl, e, rfl, he⟩ | ⟨b, htx, ha⟩
  · refine ⟨Grows.refl _, hinv, ensures_pure ?_⟩
    have hnil : e = [] := he.elim And.left fun h => Store.failReconcile_error h.1
    by_cases hperm : permanent cause = true
    · rcases hcareful hperm with hkept | ⟨hgo, w', hw'⟩
      · exact fun _ => hkept
      · rcases he with ⟨_, hch⟩ | ⟨htx, _⟩
        · exact absurd hch hgo
        · rw [hw'] at htx
          cases htx
    · exact settled_of_retry (by simp) (by simpa [hnil] using hperm)
  · rcases Store.failReconcile_ok htx with ⟨hkeeps, hrow⟩
    refine ⟨hkeeps.grows, hkeeps.coherent hinv, ?_⟩
    -- Whatever is reported, a permanent cause has been excused, kept before, or audited now.
    have hsettled : ∀ o : Outcome, o.result ≠ some .compareAndSetLost → o.err = some cause →
        Settled E held o w₂ := by
      intro o hresult herr
      by_cases hperm : permanent cause = true
      · rcases hcareful hperm with (hkept | hE) | ⟨_, w', hw'⟩
        · exact settled_of_kept (hkept.mono hkeeps.grows)
        · exact fun _ => .inr hE
        · rw [htx] at hw'
          cases hw'
          exact settled_of_kept (.inr (hkey ▸ hrow rfl))
      · rcases o with ⟨result, err⟩
        subst herr
        exact settled_of_retry hresult (by simpa using hperm)
    rcases ha with ⟨rfl, _⟩ | ⟨rfl, _⟩
    · cases b with
      | true => exact ensures_pure (settled_of_kept (.inr (hkey ▸ hrow rfl)))
      | false => exact ensures_pure (hsettled _ (by simp) rfl)
    · exact ensures_pure (hsettled _ (by simp) (by simp))

theorem ens_snapshot (hkey : intent.key = held.key) (hfits : fitsBigint held.version = true) :
    Ensures machine ok discipline (Settled E held) (snapshot intent held) w := by
  refine ensures_perform ?_
  intro w₁ _ hinv ch a w₂ hstep hp
  cases ch with
  | snapshotted answer =>
    obtain ⟨rfl, rfl⟩ := Prod.mk.inj (Option.some.inj (hp : some (answer, w₁) = some (a, w₂)))
    refine ⟨Grows.refl _, hinv, ?_⟩
    cases answer with
    | error e => exact ens_failReconcile hok hkey hfits
    | ok wire =>
      cases hval : validateSnapshot wire intent held with
      | error e =>
        simp only [hval]
        refine ensures_pure ?_
        rcases validateSnapshot_error hval with rfl | rfl
        · exact settled_of_retry (by simp) rfl
        · rcases hok _ _ _ hstep with hE | hc
          · exact fun _ => .inr hE
          · have hle : held.version ≤ w₁.headVersion intent.key := by
              simpa [careful, fails, hval] using hc
            exact settled_of_kept (.inl (hkey ▸ hle))
      | ok s =>
        have hs := validateSnapshot_ok hval
        simp only [hval]
        refine ensures_perform ?_
        intro w₃ _ hinv₃ ch a w₄ hstep hp
        rcases transact_plain Store.installSnapshot_error hp with ⟨rfl, rfl⟩ | ⟨b, htx, ha⟩
        · exact ⟨Grows.refl _, hinv₃, ensures_pure (settled_of_retry (by simp) rfl)⟩
        · rcases Store.installSnapshot_ok htx with ⟨rfl, hlost, hkeeps⟩ | ⟨rfl, hlock, hre⟩
          · refine ⟨hkeeps.grows, hkeeps.coherent hinv₃, ?_⟩
            rcases ha with ⟨rfl, rfl⟩ | ⟨rfl, rfl⟩
            · refine ensures_pure ?_
              rcases hok _ _ _ hstep with hE | hc
              · exact fun _ => .inr hE
              · have hle : held.version ≤ w₃.headVersion intent.key := by
                  simpa [careful, hlost] using hc
                exact settled_of_kept (Kept.mono (.inl (hkey ▸ hle)) hkeeps.grows)
            · exact ensures_pure (settled_of_retry (by simp) rfl)
          · have hobs := Store.head_of_lockIntent hlock
            have hle : w₃.headVersion intent.key ≤ s.fold.version := hobs ▸ hs.observed
            refine ⟨hre.grows hinv₃ hle, hre.coherent hinv₃, ?_⟩
            rcases ha with ⟨rfl, _⟩ | ⟨rfl, _⟩
            · refine ensures_pure (settled_of_kept (.inl ?_))
              simpa [hre.head, ← hkey] using hs.held
            · exact ensures_pure (settled_of_retry (by simp) rfl)
  | _ => cases hp

theorem ens_installReplay (hl : Loaded w fold) (hfold : fold.key = held.key)
    (hkey : intent.key = held.key) (hobs : intent.observedVersion = fold.version)
    (hrange : (Kept w held ∨ E) ∨
      intent.requestedFrom = fold.version + 1 ∧ intent.requestedTo = held.version)
    (hrep : Replayed intent held records) :
    Ensures machine ok discipline (Settled E held) (installReplay fold false intent records) w := by
  have hkeys : ∀ r ∈ records, r.key = fold.key := by
    intro r hr
    rw [hrep.key r hr, hkey, hfold]
  unfold installReplay
  cases hfinal : foldRecords fold records with
  | error e =>
    refine ensures_pure ?_
    rcases hrange with hkept | ⟨hfrom, _⟩
    · exact fun _ => hkept
    · rcases foldRecords_total hkeys (hrep.consecutive _ hfrom) with ⟨g, hg⟩
      rw [hg] at hfinal
      cases hfinal
  | ok final =>
    have hf := foldRecords_ok hfinal
    have hfkey : final.key = fold.key := hf.key hkeys
    refine ensures_perform ?_
    intro w₁ hg hinv ch a w₂ hstep hp
    have hl₁ := hl.mono hg
    rcases transact_plain Store.installReconcile_error hp with ⟨rfl, rfl⟩ | ⟨b, htx, ha⟩
    · exact ⟨Grows.refl _, hinv, ensures_pure (settled_of_retry (by simp) rfl)⟩
    · have hcases := Store.installReconcile_ok (by rw [hfkey, hfold, hkey])
        (by simpa [hfkey] using hkeys) htx
      rcases hcases with ⟨rfl, hlost, hkeeps⟩ | ⟨rfl, hlock, hext⟩
      · refine ⟨hkeeps.grows, hkeeps.coherent hinv, ?_⟩
        rcases ha with ⟨rfl, rfl⟩ | ⟨rfl, _⟩
        · refine ensures_pure ?_
          rcases hrange with (hkept | hE) | ⟨_, hto⟩
          · exact settled_of_kept (hkept.mono (hg.trans hkeeps.grows))
          · exact fun _ => .inr hE
          · rcases hok _ _ _ hstep with hE | hc
            · exact fun _ => .inr hE
            · have hle : intent.requestedTo ≤ w₁.headVersion intent.key := by
                simpa [careful, hlost] using hc
              exact settled_of_kept (Kept.mono (.inl (hkey ▸ hto ▸ hle)) hkeeps.grows)
        · exact ensures_pure (settled_of_retry (by simp) rfl)
      · have hhead : w₁.headVersion fold.key = fold.version := by
          rw [hfold, ← hkey, Store.head_of_lockIntent hlock, hobs]
        rcases hl₁.foldsHead hhead hkeys hfinal with ⟨_, hfh⟩
        refine ⟨hext.grows hfh, hext.coherent hfh hinv, ?_⟩
        rcases ha with ⟨rfl, _⟩ | ⟨rfl, _⟩
        · refine ensures_pure (settled_of_kept (.inl ?_))
          -- The held command is one of the records, so the head has passed it.
          rcases hrep.held with ⟨r, hr, hversion⟩
          rcases List.getElem?_of_mem hr with ⟨i, hi⟩
          have hi' := (List.getElem?_eq_some_iff.1 hi).1
          have hr' := hf.consecutive i r hi
          calc
            held.version = fold.version + 1 + i := hversion.symm.trans hr'
            _ ≤ final.version := by rw [hf.version]; omega
            _ = w₂.headVersion held.key := by simp [hext.head, hfkey, hfold]
        · exact ensures_pure (settled_of_retry (by simp) rfl)

omit hok in
theorem ens_installHistorical (hkept : Kept w held) :
    Ensures machine ok discipline (Settled E held) (installReplay fold true intent records) w := by
  cases records with
  | nil => exact ensures_pure (settled_of_kept hkept)
  | cons r rs =>
    refine ensures_perform ?_
    intro w₁ hg hinv ch a w₂ _ hp
    rcases transact_cases hp with ⟨rfl, _⟩ | ⟨b, htx, _⟩
    · exact ⟨Grows.refl _, hinv, ensures_pure (settled_of_kept (hkept.mono hg))⟩
    · have hkeeps := Store.installHistorical_ok htx
      exact ⟨hkeeps.grows, hkeeps.coherent hinv,
        ensures_pure (settled_of_kept (hkept.mono (hg.trans hkeeps.grows)))⟩

variable {historical : Bool}

theorem ens_replay (hl : Loaded w fold) (hfold : fold.key = held.key) (hkey : intent.key = held.key)
    (hobs : intent.observedVersion = fold.version) (hfits : fitsBigint held.version = true)
    (hhist : historical = true → Kept w held) (hrange : (Kept w held ∨ E) ∨
      intent.requestedFrom = fold.version + 1 ∧ intent.requestedTo = held.version) :
    Ensures machine ok discipline (Settled E held) (replay fold held historical intent) w := by
  refine ensures_perform ?_
  intro w₁ hg hinv ch a w₂ hstep hp
  cases ch with
  | replayed answer =>
    obtain ⟨rfl, rfl⟩ := Prod.mk.inj (Option.some.inj (hp : some (answer, w₁) = some (a, w₂)))
    refine ⟨Grows.refl _, hinv, ?_⟩
    cases answer with
    | error e =>
      by_cases hunknown : .unknownHistory ∈ e
      · simp only [hunknown]
        exact ens_snapshot hok hkey hfits
      · simp only [hunknown]
        exact ens_failReconcile hok hkey hfits
    | ok answer =>
      cases hval : validateReplay answer intent held with
      | error e =>
        simp only [hval]
        refine ensures_pure ?_
        rcases validateReplay_error hval with rfl | rfl
        · exact settled_of_retry (by simp) rfl
        · rcases hok _ _ _ hstep with hE | hc
          · exact fun _ => .inr hE
          · have hle : held.version ≤ w₁.headVersion intent.key := by
              simpa [careful, fails, hval] using hc
            exact settled_of_kept (.inl (hkey ▸ hle))
      | ok records =>
        simp only [hval]
        cases historical with
        | true => exact ens_installHistorical ((hhist rfl).mono hg)
        | false =>
          refine ens_installReplay hok (hl.mono hg) hfold hkey hobs ?_ (validateReplay_ok hval)
          exact hrange.imp_left fun h => h.imp_left fun hkept => hkept.mono hg
  | _ => cases hp

theorem ens_reconcile (hl : Loaded w fold) (hfold : fold.key = held.key)
    (hfits : fitsBigint held.version = true) (hhist : historical = true → Kept w held) :
    Ensures machine ok discipline (Settled E held) (reconcile fold held historical) w := by
  refine ensures_perform ?_
  intro w₁ hg hinv ch a w₂ _ hp
  cases ch with
  | id token =>
    change (if isUuidv7 token then some (token, w₁) else none) = some (a, w₂) at hp
    split at hp
    · next huuid =>
        obtain ⟨rfl, rfl⟩ := Prod.mk.inj (Option.some.inj hp)
        refine ⟨Grows.refl _, hinv, ?_⟩
        simp only [huuid]
        refine ensures_perform ?_
        intro w₃ hg₃ hinv₃ ch a w₄ hstep hp
        have hle : historical = true → Kept w₃ held := fun hh => (hhist hh).mono (hg.trans hg₃)
        -- Either the command is kept or excused, or the reconcile is startable.
        have hcareful : ch = .go → (Kept w₃ held ∨ E) ∨
            w₃.startable (newIntent token fold held historical) held = true := by
          rintro rfl
          rcases hok _ _ _ hstep with hE | hc
          · exact .inl (.inr hE)
          · exact (Bool.or_eq_true_iff.1 hc).imp_left fun h => .inl (.inl (of_decide_eq_true h))
        rcases transact_cases hp with ⟨rfl, e, rfl, he⟩ | ⟨⟨intent, b⟩, htx, ha⟩
        · refine ⟨Grows.refl _, hinv₃, ensures_pure ?_⟩
          rcases he with ⟨rfl, _⟩ | ⟨htx, hgo⟩
          · exact settled_of_retry (by simp) rfl
          · rcases hcareful hgo with (hkept | hE) | hstart
            · exact settled_of_kept hkept
            · exact fun _ => .inr hE
            · rw [(World.startable_spec hstart).1 e htx]
              exact settled_of_retry (by simp) rfl
        · rcases Store.beginReconcile_ok htx with ⟨hkeeps, hkey, hobs⟩
          refine ⟨hkeeps.grows, hkeeps.coherent hinv₃, ?_⟩
          rcases ha with ⟨rfl, hgo⟩ | ⟨rfl, _⟩
          · cases b with
            | false =>
              refine ensures_pure ?_
              rcases hcareful hgo with (hkept | hE) | hstart
              · exact settled_of_kept (hkept.mono hkeeps.grows)
              · exact fun _ => .inr hE
              · exact absurd ((World.startable_spec hstart).2 _ _ _ htx).1 (by simp)
            | true =>
              have hgrow := hg.trans (hg₃.trans hkeeps.grows)
              refine ens_replay hok (hl.mono hgrow) hfold hkey hobs hfits
                (fun hh => (hle hh).mono hkeeps.grows) ?_
              rcases hcareful hgo with (hkept | hE) | hstart
              · exact .inl (.inl (hkept.mono hkeeps.grows))
              · exact .inl (.inr hE)
              · rcases (World.startable_spec hstart).2 _ _ _ htx with ⟨_, hfrom, hto⟩
                cases historical with
                | true => exact .inl (.inl ((hle rfl).mono hkeeps.grows))
                | false => exact .inr ⟨hfrom, hto⟩
          · exact ensures_pure (settled_of_retry (by simp) rfl)
    · cases hp
  | _ => cases hp

end Reconcile

/-! ## Apply -/

section Apply

variable {E : Prop} {ok : World → Op → Choice → Prop}
variable (hok : ∀ w op ch, ok w op ch → E ∨ careful w op ch = true)
variable {w : World} {fold : Fold} {record : Record}
include hok

theorem ens_applyLoaded {retained : Option Identity} (hl : Loaded w fold)
    (hfold : fold.key = record.key) (hfits : fitsBigint record.version = true) :
    Ensures machine ok discipline (Settled E record) (applyLoaded record fold retained) w := by
  unfold applyLoaded
  by_cases hle : record.version ≤ fold.version
  · have hkept : Kept w record := .inl (hle.trans (hfold ▸ hl.le))
    simp only [hle]
    cases retained with
    | none => exact ens_reconcile hok hl hfold hfits fun _ => hkept
    | some identity =>
      by_cases hsame : sameIdentity identity record.identity = true
      · simp only [hsame]
        exact ensures_pure (settled_of_kept hkept)
      · simp only [hsame]
        refine ensures_perform ?_
        intro w₁ hg hinv ch a w₂ _ hp
        rcases transact_cases hp with ⟨rfl, e, rfl, _⟩ | ⟨b, htx, ha⟩
        · exact ⟨Grows.refl _, hinv, ensures_pure (settled_of_kept (hkept.mono hg))⟩
        · have hkeeps := (Store.recordPoison_ok htx).1
          refine ⟨hkeeps.grows, hkeeps.coherent hinv, ?_⟩
          have hkept₂ := hkept.mono (hg.trans hkeeps.grows)
          rcases ha with ⟨rfl, _⟩ | ⟨rfl, _⟩ <;> exact ensures_pure (settled_of_kept hkept₂)
  · simp only [hle]
    by_cases hgap : fold.version + 1 < record.version
    · simp only [hgap]
      exact ens_reconcile hok hl hfold hfits fun h => by cases h
    · simp only [hgap]
      have hnext : record.version = fold.version + 1 := by omega
      have hkeys : ∀ r ∈ [record], r.key = fold.key := by simp [hfold]
      have hcons : Consecutive Record.version fold.version [record] :=
        consecutive_cons.2 ⟨hnext, consecutive_nil⟩
      rcases foldRecords_total hkeys hcons with ⟨final, hfinal⟩
      have hf := foldRecords_ok hfinal
      have hfkey : final.key = fold.key := hf.key hkeys
      simp only [hfinal]
      refine ensures_perform ?_
      intro w₁ hg hinv ch a w₂ _ hp
      have hl₁ := hl.mono hg
      rcases transact_plain Store.install_error hp with ⟨rfl, rfl⟩ | ⟨b, htx, ha⟩
      · exact ⟨Grows.refl _, hinv, ensures_pure (settled_of_retry (by simp) rfl)⟩
      · rcases Store.install_ok (by simpa [hfkey] using hkeys) htx with
          ⟨rfl, hmoved, hkeeps⟩ | ⟨rfl, hsame, hext⟩
        · refine ⟨hkeeps.grows, hkeeps.coherent hinv, ?_⟩
          -- The compare-and-set is lost to a head that is at the command's version or above.
          have hpassed : record.version ≤ w₁.headVersion record.key := by
            have hle₁ := hl₁.le
            rw [hfkey] at hmoved
            rw [hfold] at hle₁ hmoved
            omega
          have hkept : Kept w₂ record := Kept.mono (.inl hpassed) hkeeps.grows
          rcases ha with ⟨rfl, _⟩ | ⟨rfl, _⟩ <;> exact ensures_pure (settled_of_kept hkept)
        · rcases hl₁.foldsHead (hfkey ▸ hsame) hkeys hfinal with ⟨_, hfh⟩
          refine ⟨hext.grows hfh, hext.coherent hfh hinv, ?_⟩
          have hkept : Kept w₂ record := by
            refine .inl ?_
            calc
              record.version = final.version := by simp [hf.version, hnext]
              _ ≤ w₂.headVersion record.key := by simp [hext.head, hfkey, hfold]
          rcases ha with ⟨rfl, _⟩ | ⟨rfl, _⟩ <;> exact ensures_pure (settled_of_kept hkept)

theorem ens_applyRecord :
    Ensures machine ok discipline (Settled E record) (applyRecord record) w := by
  refine ensures_bind (Ensures.mono ?_ (ens_load (record.version_pos.ne')))
  intro res w₁ hres
  cases res with
  | error e => exact ensures_pure (settled_of_retry (by simp) hres)
  | ok loaded =>
    rcases hres with ⟨hfold, hfits, hl⟩
    exact ens_applyLoaded hok hl hfold hfits

end Apply

end RelayPoint.Participation
