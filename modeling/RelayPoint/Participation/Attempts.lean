import RelayPoint.Participation.Snapshots

/-!
# Attempts — how often a command is handed back

One worker takes messages one after the other, and the store works.  `FailReconcile` counts the failed
attempts of a command and gives up at the third, with an audit.  It is called for the errors that the
authority returns, and for these the count is right: at most two deliveries that reached the authority
are handed back.
-/

namespace RelayPoint.Participation

open Concurrency Journal

/-! ## Environments -/

def faultFree : Op → Choice → Bool
  | .ids, _ => true
  | .replay _ _, _ => true
  | .snapshot _ _, _ => true
  | _, ch => ch = .go

instance : DecidableRel AuthorityHistory.Separate := fun r s =>
  inferInstanceAs (Decidable (r.version ≠ s.version ∧ r.identity.eventId ≠ s.identity.eventId))

def World.takes (w : World) (records : List Record) : Bool :=
  decide (∀ r ∈ records, w.Fresh r) && decide (records.Pairwise AuthorityHistory.Separate)

/-- `faultFree`, and the authority fails only by returning an error that a redelivery may mend: what
it does send is accepted and can be installed. -/
def orderly (w : World) : Op → Choice → Bool
  | .replay _ _, .replayed (.error e) => .unknownHistory ∈ e || ! permanent e
  | .replay intent held, .replayed (.ok answer) =>
    match validateReplay answer intent held with
    | .error _ => false
    | .ok records => w.takes records
  | .snapshot _ _, .snapshotted (.error e) => ! permanent e
  | .snapshot intent held, .snapshotted (.ok answer) =>
    match validateSnapshot answer intent held with
    | .error _ => false
    | .ok s => decide (w.Admits intent s)
  | op, ch => faultFree op ch

abbrev Orderly (w : World) (op : Op) (ch : Choice) : Prop :=
  orderly w op ch = true

/-! ## Sessions -/

def reached (chs : List Choice) : Bool :=
  chs.any fun
    | .replayed _ => true
    | _ => false

structure Delivered where
  message : Msg
  choices : List Choice
  disposition : Disposition
  after : World

section Session

variable (unmarshal : Wire.Bytes → Option (ParticipationCommand × Wire.Bytes)) (consumer : Consumer)

/-- One worker handles messages, each with the choices of its operations; `allowed` may depend on the
message. -/
def session (allowed : Msg → World → Op → Choice → Bool) :
    List (Msg × List Choice) → World → Option (List Delivered)
  | [], _ => some []
  | (m, chs) :: rest, w =>
    match exec machine (fun w op ch => allowed m w op ch = true) chs (handle unmarshal consumer m) w with
    | none => none
    | some (d, w') => (session allowed rest w').map (⟨m, chs, d, w'⟩ :: ·)

def orderlyFor (r : Record) (m : Msg) (w : World) (op : Op) (ch : Choice) : Bool :=
  if envelope unmarshal m = some r then orderly w op ch else faultFree op ch

def Delivered.attempts (d : Delivered) (r : Record) : Bool :=
  envelope unmarshal d.message = some r && reached d.choices

end Session

/-! ## One attempt -/

def Counted (w w' : World) (r : Record) : Prop :=
  ∃ input' ∈ w'.pending.rows, input'.key = r.key ∧ input'.eventId = r.identity.eventId ∧
    input'.status = .pending ∧ 0 < input'.attempts ∧
    ∀ input ∈ w.pending.rows, input.key.tenantId = r.key.tenantId → input.eventId = r.identity.eventId →
      input.status = .pending ∧ input.attempts < input'.attempts

/-- An attempt that hands the message back is counted, and one that terminates it leaves an audit. -/
structure Resolved (w : World) (r : Record) (d : Disposition) (w' : World) : Prop where
  nak : d = .nak → Counted w w' r
  term : d = .term → ∃ intent : Intent, intent.key = r.key ∧ Audited w' intent r .reconcileExhausted

theorem resolved_ack {w w' : World} {r : Record} : Resolved w r .ack w' :=
  ⟨by simp, by simp⟩

theorem Resolved.of_subset {w w₁ w' : World} {r : Record} {d : Disposition}
    (hsub : ∀ i ∈ w.pending.rows, i ∈ w₁.pending.rows) (h : Resolved w₁ r d w') : Resolved w r d w' where
  nak := by
    intro hd
    rcases h.nak hd with ⟨i', hi', hkey, heventId, hstatus, hpos, hall⟩
    exact ⟨i', hi', hkey, heventId, hstatus, hpos, fun i hi => hall i (hsub i hi)⟩
  term := h.term

section Attempt

variable {w : World} {fold : Fold} {intent : Intent} {held record : Record} {records : List Record}

theorem eq_of_go {α : Type} {tx : Except Err (α × World)} {a : Except Err α} {b : α} {w₁ w' : World}
    (htx : tx = .ok (b, w₁)) (hp : transact w tx .go = some (a, w')) : a = .ok b ∧ w' = w₁ := by
  subst htx
  cases hp
  exact ⟨rfl, rfl⟩

theorem Started.pendingInput (hstarted : Started w intent held) (hcustody : Custody w) :
    ∃ i, w.pendingInput intent.key.tenantId held.identity.eventId = some i ∧ i.key = intent.key := by
  rcases hcustody.input hstarted.issued hstarted.locked with ⟨own, hown, hheld⟩
  have hkey : own.key = intent.key := hheld.key
  have heventId : own.eventId = held.identity.eventId :=
    hheld.eventId.trans (congrArg Identity.eventId hstarted.held)
  have hfound : (w.pendingInput intent.key.tenantId held.identity.eventId).isSome = true :=
    List.find?_isSome.2 ⟨own, hown, by simp [hkey, heventId, hheld.status]⟩
  rcases Option.isSome_iff_exists.1 hfound with ⟨i, hi⟩
  rcases mem_pendingInput hi with ⟨hmem, htenant, hievent, _⟩
  have hsame : i = own := w.pending.mem_eq_of_clash PendingInput.clash_symm hmem hown
    (.inl ⟨htenant.trans (congrArg Key.tenantId hkey).symm, hievent.trans heventId.symm⟩)
  exact ⟨i, hi, hsame ▸ hkey⟩

theorem counted_setInput {i : PendingInput} (hkey : i.key = held.key)
    (hi : w.pendingInput held.key.tenantId held.identity.eventId = some i) :
    Counted w (w.setInput held.key.tenantId held.identity.eventId (· + 1) .pending) held := by
  rcases mem_pendingInput hi with ⟨hmem, htenant, heventId, hstatus⟩
  refine ⟨{ i with attempts := i.attempts + 1, status := .pending },
    List.mem_map.2 ⟨i, hmem, if_pos ⟨htenant, heventId, hstatus⟩⟩, hkey, heventId, rfl,
    Nat.succ_pos _, fun j hj hjtenant hjevent => ?_⟩
  have hsame : j = i := w.pending.mem_eq_of_clash PendingInput.clash_symm hj hmem
    (.inl ⟨hjtenant.trans htenant.symm, hjevent.trans heventId.symm⟩)
  rw [hsame]
  exact ⟨hstatus, Nat.lt_succ_self _⟩

theorem Store.failReconcile_started (hinv : custody.Inv w) (hstarted : Started w intent held)
    (hfits : fitsBigint held.version = true) :
    (∃ w', Store.failReconcile w intent held = .ok (false, w') ∧ Counted w w' held) ∨
      ∃ w', Store.failReconcile w intent held = .ok (true, w') ∧
        Audited w' intent held .reconcileExhausted := by
  have hleaves := leaves_lockHead w intent.key
  rcases hstarted.pendingInput hinv.2 with ⟨i, hi, hikey⟩
  by_cases hlast : i.attempts + 1 < 3
  · refine .inl ⟨(w.lockHead intent.key).setInput intent.key.tenantId held.identity.eventId (· + 1) .pending,
      ?_, ?_⟩
    · simp only [Store.failReconcile, hstarted.locked, not_true_eq_false, if_false, hi, hlast, if_true]
    · have hlocked : (w.lockHead intent.key).pendingInput intent.key.tenantId held.identity.eventId =
          some i := by
        simpa only [World.pendingInput, hleaves.pending] using hi
      rw [hstarted.key] at hikey hlocked hleaves ⊢
      simpa only [Counted, hleaves.pending] using counted_setInput hikey hlocked
  · rcases insertAudit_audited hinv.2 hstarted (by decide : Reason.reconcileExhausted ≠ .divergentHistory)
      hleaves.dlq hleaves.alerts hfits with ⟨dlq, alerts, haudit, hrows⟩
    refine .inr ⟨(({ w.lockHead intent.key with dlq, alerts } : World).setInput intent.key.tenantId
      held.identity.eventId (· + 1) .dlq).completeIntent intent .audited, ?_, hrows.dlq, hrows.alert⟩
    simp only [Store.failReconcile, hstarted.locked, not_true_eq_false, if_false, hi, hlast, haudit]

theorem plays_failReconcile {cause : Err} (hinv : custody.Inv w) (hstarted : Started w intent held)
    (hfits : fitsBigint held.version = true) (hcause : permanent cause = false) :
    Plays machine Orderly (fun _ o w' => Resolved w held (disposition o) w')
      (failReconcile intent held cause) w := by
  refine plays_perform ?_
  intro ch a w' hok hp
  have hgo : ch = .go := by simpa [Orderly, orderly, faultFree] using hok
  subst hgo
  rcases Store.failReconcile_started hinv hstarted hfits with ⟨w₁, htx, hcounted⟩ | ⟨w₁, htx, haudited⟩
  · rcases eq_of_go htx hp with ⟨rfl, rfl⟩
    exact plays_pure ⟨fun _ => hcounted, by simp [disposition, hcause]⟩
  · rcases eq_of_go htx hp with ⟨rfl, rfl⟩
    exact plays_pure ⟨by simp [disposition, permanent], fun _ => ⟨intent, hstarted.key, haudited⟩⟩

theorem plays_snapshot (hinv : custody.Inv w) (hstarted : Started w intent held)
    (hfits : fitsBigint held.version = true) :
    Plays machine Orderly (fun _ o w' => Resolved w held (disposition o) w') (snapshot intent held) w := by
  refine plays_perform ?_
  intro ch a w' hok hp
  cases ch with
  | snapshotted answer =>
    obtain ⟨rfl, rfl⟩ := Prod.mk.inj (Option.some.inj (hp : some (answer, w) = some (a, w')))
    cases answer with
    | error e => exact plays_failReconcile hinv hstarted hfits (by simpa [Orderly, orderly] using hok)
    | ok wire =>
      cases hval : validateSnapshot wire intent held with
      | error e => simp [Orderly, orderly, hval] at hok
      | ok s =>
        have hadmits : w.Admits intent s := by simpa [Orderly, orderly, hval] using hok
        simp only [hval]
        refine plays_perform ?_
        intro ch a w' hok hp
        have hgo : ch = .go := by simpa [Orderly, orderly, faultFree] using hok
        subst hgo
        rcases Store.installSnapshot_total hinv hstarted (validateSnapshot_ok hval) hadmits with
          ⟨w₁, htx, _⟩
        rcases eq_of_go htx hp with ⟨rfl, rfl⟩
        exact plays_pure resolved_ack
  | _ => cases hp

theorem fitsBigint_of_le {m n : Nat} (hle : m ≤ n) (h : fitsBigint n = true) : fitsBigint m = true := by
  simp only [fitsBigint, decide_eq_true_eq] at h ⊢
  omega

theorem fresh_lockHead {r : Record} (h : w.Fresh r) (key : Key) : (w.lockHead key).Fresh r where
  version := by simpa only [(still_lockHead w key).versions] using h.version
  event := by simpa only [(still_lockHead w key).events] using h.event

theorem Store.installReconcile_started (hstarted : Started w intent held) (hranged : (intent.row .pending).Ranged)
    (hrep : Replayed intent held records) (hgap : intent.observedVersion < held.version)
    (hobs : intent.observedVersion = fold.version) {final : Fold}
    (hfinal : foldRecords fold records = .ok final) (htakes : w.takes records = true) :
    ∃ w', Store.installReconcile w intent records final = .ok (true, w') := by
  have hf := foldRecords_ok hfinal
  have hfrom := hrep.above hranged hgap
  have hle : intent.requestedFrom ≤ intent.requestedTo := hranged.le
  have hversion : final.version = intent.requestedTo := by
    rw [hf.version, hrep.length]
    omega
  have hfits : fitsBigint final.version = true := by
    rw [hversion]
    exact hranged.fits
  simp only [World.takes, Bool.and_eq_true, decide_eq_true_eq] at htakes
  have hinstall : ∃ w₁, installRecords (w.lockHead intent.key) records final = .ok w₁ ∧
      Committed (w.lockHead intent.key) w₁ records := by
    refine installRecords_total final (by omega) hfits (fun r hr => ?_)
      (fun r hr => fresh_lockHead (htakes.1 r hr) intent.key) htakes.2
    refine fitsBigint_of_le ?_ hfits
    rw [hf.version]
    exact (hf.consecutive.of_mem hr).2.1
  rcases hinstall with ⟨w₁, hw₁, _⟩
  refine ⟨w₁.completeReconcile intent .installed .installed, ?_⟩
  simp only [Store.installReconcile, hstarted.locked, not_true_eq_false, if_false, hw₁]

variable {historical : Bool} {version : Nat}

theorem plays_installReplay (hinv : custody.Inv w) (hstarted : Started w intent held)
    (hfits : fitsBigint held.version = true) (hfold : fold.key = held.key)
    (hobs : intent.observedVersion = fold.version)
    (hside : if historical then held.version ≤ fold.version else fold.version < held.version)
    (hrep : Replayed intent held records) (htakes : w.takes records = true) :
    Plays machine Orderly (fun _ o w' => Resolved w held (disposition o) w')
      (installReplay fold historical intent records) w := by
  have hranged := hstarted.issued.ranged hinv.2
  unfold installReplay
  cases historical with
  | true =>
    rcases hrep.historical hranged (hobs ▸ hside) with ⟨r, rfl, hversion, _⟩
    have hfresh : w.Fresh r := by
      simp only [World.takes, Bool.and_eq_true, decide_eq_true_eq] at htakes
      exact htakes.1 r (by simp)
    rcases insertLedgers_total (by rw [hversion]; exact hfits) (fresh_lockHead hfresh intent.key) with
      ⟨versions, events, hledgers, _⟩
    refine plays_perform ?_
    intro ch a w' hok hp
    have hgo : ch = .go := by simpa [Orderly, orderly, faultFree] using hok
    subst hgo
    have htx : ∃ w₁, Store.installHistorical w intent r = .ok (true, w₁) := by
      simp [Store.installHistorical, hstarted.locked, hledgers]
    rcases htx with ⟨w₁, htx⟩
    rcases eq_of_go htx hp with ⟨rfl, rfl⟩
    exact plays_pure resolved_ack
  | false =>
    have hgap : intent.observedVersion < held.version := hobs ▸ hside
    have hkeys : ∀ r ∈ records, r.key = fold.key := by
      intro r hr
      rw [hrep.key r hr, hstarted.key, hfold]
    have hcons : Consecutive Record.version fold.version records :=
      hobs ▸ hrep.consecutive _ (hrep.above hranged hgap)
    rcases foldRecords_total hkeys hcons with ⟨final, hfinal⟩
    simp only [hfinal]
    refine plays_perform ?_
    intro ch a w' hok hp
    have hgo : ch = .go := by simpa [Orderly, orderly, faultFree] using hok
    subst hgo
    rcases Store.installReconcile_started hstarted hranged hrep hgap hobs hfinal htakes with ⟨w₁, htx⟩
    rcases eq_of_go htx hp with ⟨rfl, rfl⟩
    exact plays_pure resolved_ack

theorem plays_replay (hinv : custody.Inv w) (hstarted : Started w intent held)
    (hfits : fitsBigint held.version = true) (hfold : fold.key = held.key)
    (hobs : intent.observedVersion = fold.version)
    (hside : if historical then held.version ≤ fold.version else fold.version < held.version) :
    Plays machine Orderly (fun _ o w' => Resolved w held (disposition o) w')
      (replay fold held historical intent) w := by
  refine plays_perform ?_
  intro ch a w' hok hp
  cases ch with
  | replayed answer =>
    obtain ⟨rfl, rfl⟩ := Prod.mk.inj (Option.some.inj (hp : some (answer, w) = some (a, w')))
    cases answer with
    | error e =>
      by_cases hunknown : .unknownHistory ∈ e
      · simp only [hunknown]
        exact plays_snapshot hinv hstarted hfits
      · simp only [hunknown]
        exact plays_failReconcile hinv hstarted hfits (by simpa [Orderly, orderly, hunknown] using hok)
    | ok answer =>
      cases hval : validateReplay answer intent held with
      | error e => simp [Orderly, orderly, hval] at hok
      | ok records =>
        have htakes : w.takes records = true := by simpa [Orderly, orderly, hval] using hok
        simp only [hval]
        exact plays_installReplay hinv hstarted hfits hfold hobs hside (validateReplay_ok hval) htakes
  | _ => cases hp

/-! Nothing before the replay reaches the authority. -/

@[simp] theorem reached_nil : reached [] = false := rfl

@[simp] theorem reached_go (chs : List Choice) : reached (.go :: chs) = reached chs := rfl

@[simp] theorem reached_id (s : String) (chs : List Choice) : reached (.id s :: chs) = reached chs := rfl

theorem Store.beginReconcile_subset {intent' : Intent} {b : Bool} {w' : World}
    (h : Store.beginReconcile w intent held = .ok ((intent', b), w')) :
    ∀ i ∈ w.pending.rows, i ∈ w'.pending.rows := by
  have hlock := (leaves_lockHead w intent.key).pending
  rcases Store.beginReconcile_cases h with ⟨_, rfl | ⟨pending, hins, rfl⟩⟩ | ⟨_, row, _, _, rfl⟩ |
      ⟨_, rfl, pending, intents, hins, rfl⟩
  · simp [hlock]
  · intro i hi
    simp [(Table.insert_eq_some hins).1, hi]
  · simp [hlock]
  · intro i hi
    simp [(Table.insert_eq_some hins.pending).1, hi]

theorem plays_reconcile (hinv : custody.Inv w) (hfits : fitsBigint held.version = true)
    (hfold : fold.key = held.key)
    (hside : if historical then held.version ≤ fold.version else fold.version < held.version) :
    Plays machine Orderly (fun chs o w' => reached chs = true → Resolved w held (disposition o) w')
      (reconcile fold held historical) w := by
  refine plays_perform ?_
  intro ch a w₁ _ hp
  cases ch with
  | id token =>
    change (if isUuidv7 token then some (token, w) else none) = some (a, w₁) at hp
    split at hp
    · next huuid =>
        obtain ⟨rfl, rfl⟩ := Prod.mk.inj (Option.some.inj hp)
        simp only [huuid]
        refine plays_perform ?_
        intro ch a w₂ hok hp
        have hgo : ch = .go := by simpa [Orderly, orderly, faultFree] using hok
        subst hgo
        change transact w (Store.beginReconcile w (newIntent token fold held historical) held) .go =
          some (a, w₂) at hp
        rcases transact_cases hp with ⟨_, e, rfl, _⟩ | ⟨⟨intent, b⟩, htx, ⟨rfl, _⟩ | ⟨rfl, _⟩⟩
        · exact plays_pure (by simp)
        · cases b with
          | false => exact plays_pure (by simp)
          | true =>
            have hbegin := Store.beginReconcile_custody hinv.2 rfl rfl
              (newIntent_shape token fun h => by simpa [h] using hside) htx
            have hstarted := hbegin.2.2 rfl
            have hinv₂ : custody.Inv w₂ := ⟨hinv.1.keep (Store.beginReconcile_still htx), hbegin.1⟩
            refine Plays.mono ?_ (plays_replay hinv₂ hstarted hfits hfold
              (Store.beginReconcile_ok htx).2.2 hside)
            intro chs o w' hres _
            exact hres.of_subset (Store.beginReconcile_subset htx)
        · exact plays_pure (by simp)
    · cases hp
  | _ => cases hp

theorem plays_applyLoaded {retained : Option Identity} (hinv : custody.Inv w)
    (hfits : fitsBigint record.version = true) (hfold : fold.key = record.key) :
    Plays machine Orderly (fun chs o w' => reached chs = true → Resolved w record (disposition o) w')
      (applyLoaded record fold retained) w := by
  unfold applyLoaded
  by_cases hle : record.version ≤ fold.version
  · simp only [hle]
    cases retained with
    | none => exact plays_reconcile hinv hfits hfold hle
    | some identity =>
      by_cases hsame : sameIdentity identity record.identity = true
      · simp only [hsame]
        exact plays_pure (by simp)
      · simp only [hsame]
        refine plays_perform ?_
        intro ch a w₁ hok _
        have hgo : ch = .go := by simpa [Orderly, orderly, faultFree] using hok
        subst hgo
        cases a <;> exact plays_pure (by simp)
  · simp only [hle]
    by_cases hgap : fold.version + 1 < record.version
    · simp only [hgap]
      exact plays_reconcile hinv hfits hfold (Nat.lt_of_not_le hle)
    · simp only [hgap]
      cases hfinal : foldRecords fold [record] with
      | error e => exact plays_pure (by simp)
      | ok final =>
        refine plays_perform ?_
        intro ch a w₁ hok _
        have hgo : ch = .go := by simpa [Orderly, orderly, faultFree] using hok
        subst hgo
        exact plays_pure (by simp)

theorem plays_loadLedger {key : Key} (hv : version ≠ 0) (hkey : fold.key = key) :
    Plays machine Orderly (fun chs res w' => reached chs = false ∧ w' = w ∧ ∀ f i, res = .ok (f, i) →
      f.key = key ∧ fitsBigint version = true) (loadLedger fold key version) w := by
  unfold loadLedger
  rw [if_neg hv]
  refine plays_perform ?_
  intro ch a w₁ hok hp
  rcases readAnswer_cases hp with ⟨rfl, ha⟩
  have hgo : ch = .go := by simpa [Orderly, orderly, faultFree] using hok
  subst hgo
  cases a with
  | error e => exact plays_pure ⟨rfl, rfl, fun f i h => by cases h⟩
  | ok retained =>
    refine plays_pure ⟨rfl, rfl, fun f i h => ?_⟩
    cases h
    refine ⟨hkey, ?_⟩
    by_contra hfits
    simp [hfits] at ha

theorem plays_load {key : Key} (hv : version ≠ 0) :
    Plays machine Orderly (fun chs res w' => reached chs = false ∧ w' = w ∧ ∀ f i, res = .ok (f, i) →
      f.key = key ∧ fitsBigint version = true) (load key version) w := by
  refine plays_perform ?_
  intro ch a w₁ hok hp
  rcases readAnswer_cases hp with ⟨rfl, _⟩
  have hgo : ch = .go := by simpa [Orderly, orderly, faultFree] using hok
  subst hgo
  cases a with
  | error e => exact plays_pure ⟨rfl, rfl, fun f i h => by cases h⟩
  | ok row =>
    cases row with
    | none => exact plays_loadLedger hv rfl
    | some row =>
      dsimp only
      split
      · exact plays_pure ⟨rfl, rfl, fun f i h => by cases h⟩
      · refine plays_perform ?_
        intro ch a w₂ hok hp
        rcases readAnswer_cases hp with ⟨rfl, _⟩
        have hgo : ch = .go := by simpa [Orderly, orderly, faultFree] using hok
        subst hgo
        cases a with
        | error e => exact plays_pure ⟨rfl, rfl, fun f i h => by cases h⟩
        | ok participants => exact plays_loadLedger hv rfl

theorem reached_append {chs : List Choice} (h : reached chs = false) (chs' : List Choice) :
    reached (chs ++ chs') = reached chs' := by
  simp only [reached, List.any_append] at h ⊢
  rw [h, Bool.false_or]

theorem plays_applyRecord (hinv : custody.Inv w) :
    Plays machine Orderly (fun chs o w' => reached chs = true → Resolved w record (disposition o) w')
      (applyRecord record) w := by
  refine plays_bind (Plays.mono ?_ (plays_load record.version_pos.ne'))
  rintro chs res w₁ ⟨hchs, rfl, hres⟩
  simp only [reached_append hchs]
  cases res with
  | error e => exact plays_pure (by simp)
  | ok loaded =>
    rcases hres loaded.1 loaded.2 rfl with ⟨hfold, hfits⟩
    exact plays_applyLoaded hinv hfits hfold

end Attempt

/-! ## Deliveries -/

section Delivery

variable {unmarshal : Wire.Bytes → Option (ParticipationCommand × Wire.Bytes)} {consumer : Consumer}
  {m : Msg} {r : Record} {w w' : World}

variable {ok : World → Op → Choice → Prop} {chs : List Choice} {d : Disposition} {n : Nat}

theorem custody_handle :
    Ensures machine ok custody (fun _ _ => True) (handle unmarshal consumer m) w := by
  unfold handle
  cases henv : envelope unmarshal m with
  | none => exact ensures_pure trivial
  | some record =>
    dsimp only
    rw [apply_consumer consumer (canonical_of_envelope henv)]
    exact ensures_bind (Ensures.mono (fun _ _ _ => ensures_pure trivial) custody_applyRecord)

theorem plays_handle (henv : envelope unmarshal m = some r) (hinv : custody.Inv w) :
    Plays machine Orderly (fun chs d w' => reached chs = true → Resolved w r d w')
      (handle unmarshal consumer m) w := by
  unfold handle
  rw [henv]
  dsimp only
  rw [apply_consumer consumer (canonical_of_envelope henv)]
  refine plays_bind (Plays.mono ?_ (plays_applyRecord hinv))
  intro chs o w' hres
  exact plays_pure (by simpa only [List.append_nil] using hres)

theorem exec_follows [∀ w op ch, Decidable (ok w op ch)] (hinv : custody.Inv w)
    (hrun : exec machine ok chs (handle unmarshal consumer m) w = some (d, w')) :
    custody.Inv w' ∧ Follows w w' := by
  have hens : Ensures machine ok custody (fun _ w' => Follows w w') (handle unmarshal consumer m) w :=
    Ensures.of_rely id (fun _ _ hf _ _ => hf) (Follows.refl w) hinv custody_handle
  have hend := hens.exec (fun _ _ _ h => h) hinv hrun
  exact hend

def Tally (r : Record) (n : Nat) (w : World) : Prop :=
  n ≤ 2 ∧ (0 < n → ∃ input ∈ w.pending.rows, input.key.tenantId = r.key.tenantId ∧
    input.eventId = r.identity.eventId ∧ (input.status = .pending → n ≤ input.attempts))

theorem Tally.follow (h : Tally r n w) (hf : Follows w w') : Tally r n w' := by
  refine ⟨h.1, fun hpos => ?_⟩
  rcases h.2 hpos with ⟨i, hi, htenant, heventId, hcount⟩
  rcases hf.pending i hi with ⟨i', hi', hlater⟩
  refine ⟨i', hi', by rw [hlater.key, htenant], hlater.eventId.trans heventId, fun hstatus => ?_⟩
  -- An input that is pending now was pending before.
  have hpending : i.status = .pending := by
    by_contra hne
    exact hne ((hlater.status hne).symm.trans hstatus)
  exact (hcount hpending).trans hlater.attempts

theorem Tally.count (h : Tally r n w) (hcounted : Counted w w' r) (hinv : custody.Inv w') :
    Tally r (n + 1) w' := by
  rcases hcounted with ⟨i', hi', hkey, heventId, hstatus, hpos, hall⟩
  have hlast : i'.attempts < 3 := hinv.2.attempts i' hi' hstatus
  have hcount : n + 1 ≤ i'.attempts := by
    rcases Nat.eq_zero_or_pos n with rfl | hn
    · exact hpos
    · rcases h.2 hn with ⟨i, hi, htenant, hievent, hattempts⟩
      rcases hall i hi htenant hievent with ⟨hpending, hlt⟩
      exact (hattempts hpending).trans_lt hlt
  exact ⟨by omega, fun _ => ⟨i', hi', by rw [hkey], heventId, fun _ => hcount⟩⟩

def Delivered.handedBack (unmarshal : Wire.Bytes → Option (ParticipationCommand × Wire.Bytes))
    (d : Delivered) (r : Record) : Bool :=
  d.attempts unmarshal r && d.disposition = .nak

theorem tally_delivery (hinv : custody.Inv w) (htally : Tally r n w)
    (hrun : exec machine (fun w op ch => orderlyFor unmarshal r m w op ch = true) chs
      (handle unmarshal consumer m) w = some (d, w')) :
    Tally r (n + if (Delivered.mk m chs d w').handedBack unmarshal r then 1 else 0) w' ∧
      ((Delivered.mk m chs d w').attempts unmarshal r = true → d = .term →
        ∃ intent : Intent, intent.key = r.key ∧ Audited w' intent r .reconcileExhausted) := by
  rcases exec_follows hinv hrun with ⟨hinv', hfollows⟩
  by_cases hattempt : (Delivered.mk m chs d w').attempts unmarshal r = true
  · have hboth : envelope unmarshal m = some r ∧ reached chs = true := by
      simpa [Delivered.attempts] using hattempt
    have hplays : Plays machine (fun w op ch => orderlyFor unmarshal r m w op ch = true)
        (fun chs d w' => reached chs = true → Resolved w r d w') (handle unmarshal consumer m) w := by
      refine Plays.restrict (fun w op ch hok => ?_) (plays_handle hboth.1 hinv)
      simpa [orderlyFor, hboth.1] using hok
    have hres := hplays.exec hrun hboth.2
    refine ⟨?_, fun _ hd => hres.term hd⟩
    by_cases hd : d = .nak
    · subst hd
      rw [if_pos (by simp [Delivered.handedBack, hattempt])]
      exact htally.count (hres.nak rfl) hinv'
    · rw [if_neg (by simp [Delivered.handedBack, hd])]
      exact htally.follow hfollows
  · rw [if_neg (by simp [Delivered.handedBack, hattempt])]
    exact ⟨htally.follow hfollows, fun h => absurd h hattempt⟩

theorem tally_session {deliveries : List (Msg × List Choice)} :
    ∀ {n : Nat} {w : World} {log : List Delivered}, custody.Inv w → Tally r n w →
      session unmarshal consumer (orderlyFor unmarshal r) deliveries w = some log →
      n + log.countP (·.handedBack unmarshal r) ≤ 2 ∧
        ∀ d ∈ log, d.attempts unmarshal r = true → d.disposition = .term →
          ∃ intent : Intent, intent.key = r.key ∧ Audited d.after intent r .reconcileExhausted := by
  induction deliveries with
  | nil =>
    intro n w log _ htally h
    cases h
    exact ⟨htally.1, by simp⟩
  | cons delivery rest ih =>
    intro n w log hinv htally h
    unfold session at h
    split at h
    · cases h
    · next d w' hrun =>
        rcases Option.map_eq_some_iff.1 h with ⟨log', hlog', rfl⟩
        rcases tally_delivery hinv htally hrun with ⟨htally', hterm⟩
        rcases ih (exec_follows hinv hrun).1 htally' hlog' with ⟨hcount, hrest⟩
        refine ⟨?_, ?_⟩
        · rw [List.countP_cons]
          omega
        · intro e he
          rcases List.mem_cons.1 he with rfl | he
          · exact hterm
          · exact hrest e he

/-- Over any session from the empty store in which the store works and the authority is orderly about
a command, at most two attempts on it are handed back, and one that is terminated has left both rows
of an exhausted reconcile. -/
theorem attempts_bounded {deliveries : List (Msg × List Choice)} {log : List Delivered}
    (hrun : session unmarshal consumer (orderlyFor unmarshal r) deliveries World.empty = some log) :
    log.countP (·.handedBack unmarshal r) ≤ 2 ∧
      ∀ d ∈ log, d.attempts unmarshal r = true → d.disposition = .term →
        ∃ intent : Intent, intent.key = r.key ∧ Audited d.after intent r .reconcileExhausted := by
  have hempty : Tally r 0 World.empty := ⟨by omega, by simp⟩
  simpa using tally_session custody_empty hempty hrun

end Delivery

/-! ## An authority that is down, and one that sends too little -/

namespace Scenario

def replayDown : Msg × List Choice :=
  (message third, [.go, .go, .id token, .go, .replayed (.error []), .go])

def replayStillDown : Msg × List Choice :=
  (message third, [.go, .go, .go, .id token₂, .go, .replayed (.error []), .go])

def incomplete : Choice :=
  .replayed (.ok (some ⟨[first], 5, "", [], 1, "history"⟩))

def replayShort : Msg × List Choice :=
  (message third, [.go, .go, .id token, .go, incomplete])

def replayStillShort : Msg × List Choice :=
  (message third, [.go, .go, .go, .id token₂, .go, incomplete])

end Scenario

open Scenario in
theorem attempts_bounded_replayDown :
    ∃ log, session unmarshal corex (orderlyFor unmarshal thirdRecord)
        [replayDown, replayStillDown, replayStillDown] World.empty = some log ∧
      log.map (fun d => (d.attempts unmarshal thirdRecord, d.disposition)) =
        [(true, .nak), (true, .nak), (true, .term)] ∧
      log.countP (·.handedBack unmarshal thirdRecord) ≤ 2 ∧
      ∀ d ∈ log, d.attempts unmarshal thirdRecord = true → d.disposition = .term →
        ∃ intent : Intent, intent.key = thirdRecord.key ∧
          Audited d.after intent thirdRecord .reconcileExhausted := by
  have hrun : (session unmarshal corex (orderlyFor unmarshal thirdRecord)
      [replayDown, replayStillDown, replayStillDown] World.empty).map
        (·.map fun d => (d.attempts unmarshal thirdRecord, d.disposition)) =
      some [(true, .nak), (true, .nak), (true, .term)] := by
    decide +kernel
  rcases Option.map_eq_some_iff.1 hrun with ⟨log, hlog, hvalue⟩
  exact ⟨log, hlog, hvalue, attempts_bounded hlog⟩

open Scenario in
/-- Three attempts are handed back, and there is no end to it. -/
theorem attempts_uncounted :
    ∃ log, session unmarshal corex (fun _ _ => faultFree)
        [replayShort, replayStillShort, replayStillShort] World.empty = some log ∧
      2 < log.countP (·.handedBack unmarshal thirdRecord) := by
  have hrun : (session unmarshal corex (fun _ _ => faultFree)
      [replayShort, replayStillShort, replayStillShort] World.empty).map
        (·.countP (·.handedBack unmarshal thirdRecord)) = some 3 := by
    decide +kernel
  rcases Option.map_eq_some_iff.1 hrun with ⟨log, hlog, hvalue⟩
  exact ⟨log, hlog, by omega⟩

end RelayPoint.Participation
