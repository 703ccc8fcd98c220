import RelayPoint.Delivery.Acceptance
import RelayPoint.RouteProjection.Apply
import RelayPoint.RouteProjection.Effects

/-!
# Visibility — what a visible head rests on

An interaction becomes visible to an agent only by a ringing fact or a visible snapshot of the router,
and only if a delivery was accepted for it.  The authorization is looked up in one transaction and the
head is written in another, with any number of other calls in between; that is harmless because an
accepted delivery stays accepted.
-/

namespace RelayPoint.RouteProjection

open Concurrency
open Participation (Key isUuidv7)
open UuidText (uuidIn)

/-! ## Evidence -/

structure Showing where
  key : Key
  version : Nat
  deliveryAuthorizationId : String
  receiptId : String
  visibilityGeneration : Nat
  leaseUntil : Int
  deriving DecidableEq, Repr

def Installed.showing : Installed → Option Showing
  | .fact f =>
    if f.kind = .ringing then
      some ⟨f.key, f.version, f.deliveryAuthorizationId, f.receiptId, f.visibilityGeneration,
        f.leaseUntil⟩
    else none
  | .snapshot s =>
    if s.projection.state.visibility = .visible then
      some ⟨s.projection.key, s.projection.version, s.projection.state.deliveryAuthorizationId,
        s.projection.state.receiptId, s.projection.state.visibilityGeneration,
        s.projection.state.leaseUntil⟩
    else none

/-- A delivery was accepted for the interaction, under this authorization and this receipt. -/
def World.authorized (w : World) (s : Showing) : Prop :=
  ∃ row ∈ w.delivery.authorizations.rows, row.key = ⟨s.key.tenantId, s.deliveryAuthorizationId⟩ ∧
    row.interactionId = s.key.interactionId ∧ row.receiptId = s.receiptId

structure Shown (w : World) (key : Key) (item : Installed) (s : Showing) : Prop where
  showing : item.showing = some s
  about : s.key = key
  generation : s.visibilityGeneration = s.version
  lease : s.leaseUntil ≠ 0
  authorized : w.authorized s

/-- A visible head: the last thing installed showed the interaction, and the columns say the same. -/
structure Evidence (w : World) (key : Key) (row : HeadRow) (item : Installed) (s : Showing) : Prop
    extends Shown w key item s where
  last : (w.installed key).getLast? = some item
  version : row.version = s.version
  deliveryAuthorizationId : uuidText row.deliveryAuthorizationId = s.deliveryAuthorizationId
  receiptId : uuidText row.receiptId = s.receiptId
  visibilityGeneration : row.visibilityGeneration = row.version
  leaseUntil : row.leaseUntil = some (s.leaseUntil / 1000)

def World.evident (w : World) : Prop :=
  ∀ key row, w.heads key = some row → row.visible = true → ∃ item s, Evidence w key row item s

structure Grows (w w' : World) : Prop where
  authorizations : w.delivery.authorizations.rows <+: w'.delivery.authorizations.rows
  installed : ∀ key, w.installed key <+: w'.installed key
  now : w.now ≤ w'.now

theorem Grows.refl (w : World) : Grows w w :=
  ⟨List.prefix_rfl, fun _ => List.prefix_rfl, le_rfl⟩

theorem Grows.trans {w₁ w₂ w₃ : World} (h : Grows w₁ w₂) (h' : Grows w₂ w₃) : Grows w₁ w₃ :=
  ⟨h.authorizations.trans h'.authorizations, fun key => (h.installed key).trans (h'.installed key),
    h.now.trans h'.now⟩

def discipline : Discipline World where
  Inv := World.evident
  Rely := Grows
  Guar := Grows
  refl := Grows.refl
  trans := Grows.trans

section Effects

variable {w w' : World} {key : Key} {row : HeadRow} {items : List Installed} {item : Installed}
  {s : Showing}

theorem authorized_mono (h : w.authorized s) (hg : Grows w w') : w'.authorized s := by
  rcases h with ⟨row, hrow, hbinding⟩
  exact ⟨row, hg.authorizations.subset hrow, hbinding⟩

theorem Shown.mono (h : Shown w key item s) (hg : Grows w w') : Shown w' key item s :=
  ⟨h.showing, h.about, h.generation, h.lease, authorized_mono h.authorized hg⟩

theorem Evidence.mono (h : Evidence w key row item s) (hg : Grows w w')
    (hinstalled : w'.installed key = w.installed key) : Evidence w' key row item s where
  toShown := h.toShown.mono hg
  last := by rw [hinstalled, h.last]
  version := h.version
  deliveryAuthorizationId := h.deliveryAuthorizationId
  receiptId := h.receiptId
  visibilityGeneration := h.visibilityGeneration
  leaseUntil := h.leaseUntil

theorem Keeps.grows (h : Keeps w w') : Grows w w' :=
  ⟨by rw [h.delivery], fun key => by rw [h.installed], h.now.ge⟩

theorem Keeps.evident (h : Keeps w w') (hw : w.evident) : w'.evident := by
  intro key row hrow hvisible
  have hold : w.heads key = some row := by
    rcases h.heads key with hsame | ⟨_, hinitial⟩
    · rw [← hsame, hrow]
    · rw [hinitial] at hrow
      cases hrow
      cases hvisible
  rcases hw key row hold hvisible with ⟨item, s, hev⟩
  exact ⟨item, s, hev.mono h.grows (by rw [h.installed])⟩

theorem Replaced.grows (h : Replaced w w' key row items) : Grows w w' := by
  refine ⟨by rw [h.delivery], fun k => ?_, h.now.ge⟩
  rw [h.installed]
  by_cases hk : k = key
  · subst hk
    simp
  · simp [Function.update_of_ne hk]

theorem Replaced.evident (h : Replaced w w' key row items) (hw : w.evident)
    (hnew : row.visible = true → ∃ item s, Evidence w' key row item s) : w'.evident := by
  intro k r hr hvisible
  rw [h.heads] at hr
  by_cases hk : k = key
  · subst hk
    have hr : row = r := by simpa using hr
    subst hr
    exact hnew hvisible
  · rw [Function.update_of_ne hk] at hr
    rcases hw k r hr hvisible with ⟨item, s, hev⟩
    exact ⟨item, s, hev.mono h.grows (by rw [h.installed, Function.update_of_ne hk])⟩

end Effects

/-! ## New heads -/

theorem uuidText_of_column {id : String} {v : Option UuidValue} (hid : isUuidv7 id = true)
    (h : uuidColumn id = some v) : uuidText v = id := by
  rcases uuidColumn_of_isUuidv7 hid with ⟨value, hvalue, htext⟩
  rw [hvalue] at h
  cases h
  exact htext

section NewHeads

variable {w w' : World} {key : Key} {row : HeadRow} {items : List Installed} {item : Installed}

theorem Replaced.evidence {state : FoldedState} (h : Replaced w w' key row items)
    (hrow : headRow state = some row) (hlast : items.getLast? = some item)
    (hvalid : validVisible state = true)
    (hitem : item.showing = some ⟨key, state.version, state.deliveryAuthorizationId, state.receiptId,
      state.visibilityGeneration, state.leaseUntil⟩)
    (hauth : w.authorized ⟨key, state.version, state.deliveryAuthorizationId, state.receiptId,
      state.visibilityGeneration, state.leaseUntil⟩) : ∃ item s, Evidence w' key row item s := by
  rcases headRow_some hrow with ⟨hversion, _, hauthorization, hreceipt, hgeneration, hlease⟩
  simp only [validVisible, Bool.and_eq_true, decide_eq_true_eq] at hvalid
  obtain ⟨⟨⟨hauthorizationId, hreceiptId⟩, hgen⟩, hnonzero⟩ := hvalid
  refine ⟨item, _, ⟨hitem, rfl, hgen, hnonzero, authorized_mono hauth h.grows⟩, ?_, hversion,
    uuidText_of_column hauthorizationId hauthorization, uuidText_of_column hreceiptId hreceipt, ?_, ?_⟩
  · rw [h.installed]
    simp [hlast]
  · rw [hgeneration, hversion, hgen]
  · rw [hlease]
    exact if_neg hnonzero

def World.bound (w : World) (f : RouteFact) : Prop :=
  ∃ tenantId authorizationId, uuidIn f.tenantId = some tenantId ∧
    uuidIn f.deliveryAuthorizationId = some authorizationId ∧
    ∃ row ∈ w.delivery.authorizations.rows, row.key = ⟨tenantId, authorizationId⟩ ∧
      row.interactionId = f.interactionId ∧ row.receiptId = f.receiptId

variable {f : RouteFact}

theorem bound_mono (h : w.bound f) (hg : Grows w w') : w'.bound f := by
  rcases h with ⟨t, a, ht, ha, row, hrow, hbinding⟩
  exact ⟨t, a, ht, ha, row, hg.authorizations.subset hrow, hbinding⟩

theorem bound_of_authorization (h : Store.authorization w f.tenantId f.deliveryAuthorizationId =
      .ok (some (f.interactionId, f.receiptId))) : w.bound f := by
  unfold Store.authorization at h
  split at h
  · next t a ht ha =>
      rcases Option.map_eq_some_iff.1 (Except.ok.inj h) with ⟨row, hrow, hpair⟩
      rcases Delivery.mem_authorization hrow with ⟨hmem, hkey⟩
      simp only [Prod.mk.injEq] at hpair
      exact ⟨t, a, ht, ha, row, hmem, hkey, hpair⟩
  · cases h

theorem authorized_of_bound {s : Showing} (h : w.bound f) (htenant : isUuidv7 f.tenantId = true)
    (hid : isUuidv7 f.deliveryAuthorizationId = true) (hkey : s.key = f.key)
    (hauth : s.deliveryAuthorizationId = f.deliveryAuthorizationId)
    (hreceipt : s.receiptId = f.receiptId) : w.authorized s := by
  rcases h with ⟨t, a, ht, ha, row, hrow, hk, hinteraction, hr⟩
  rw [(uuidIn_of_isUuidv7 htenant).1] at ht
  rw [(uuidIn_of_isUuidv7 hid).1] at ha
  cases ht
  cases ha
  refine ⟨row, hrow, ?_, ?_, ?_⟩
  · rw [hk, hkey, hauth]
    rfl
  · rw [hinteraction, hkey]
    rfl
  · rw [hr, hreceipt]

theorem Replaced.evident_batch {facts : List RouteFact} {k : Key} {state final : FoldedState}
    (h : Replaced w w' key row (facts.map .fact)) (hrow : headRow final = some row)
    (hw : w.evident) (hne : facts ≠ []) (hfold : foldFacts k state facts = .ok final)
    (hkeys : ∀ f ∈ facts, f.key = key)
    (hbound : ∀ f ∈ facts, f.kind = .ringing → w.bound f) : w'.evident := by
  refine h.evident hw ?_
  intro hvisible
  rw [(headRow_some hrow).2.1, decide_eq_true_eq] at hvisible
  rcases foldFacts_visible hfold with ⟨hnil, _⟩ | ⟨f, hlast, hvalid, _, s', rfl⟩
  · exact absurd hnil hne
  · have hringing := visible_apply hvisible hvalid
    have hmem := List.mem_of_getLast? hlast
    have hcheck := hvalid
    simp only [validateFact, validKind, hringing, Bool.and_eq_true] at hcheck
    obtain ⟨⟨⟨⟨htenant, _⟩, _⟩, _⟩, ⟨⟨hid, hreceipt⟩, hgeneration⟩, hlease⟩ := hcheck
    have hitem : (facts.map Installed.fact).getLast? = some (.fact f) := by simp [hlast]
    refine h.evidence hrow hitem ?_ ?_ ?_
    · simp [validVisible, FoldedState.apply, hringing, hid, hreceipt, hgeneration, hlease]
    · simp [Installed.showing, FoldedState.apply, hringing, hkeys f hmem]
    · refine authorized_of_bound (hbound f hmem hringing) htenant hid (hkeys f hmem).symm ?_ ?_
      all_goals simp [FoldedState.apply, hringing]

theorem Replaced.evident_snapshot {s : Snapshot} {intent : ReconcileIntent} {held : RouteFact}
    (h : Replaced w w' key row [.snapshot s]) (hrow : headRow s.projection.state = some row)
    (hw : w.evident) (hvalid : validateSnapshot s intent held = true) (hkey : key = held.key)
    (htenant : isUuidv7 held.tenantId = true)
    (hbound : s.projection.state.visibility = .visible → w.bound s.ringing) : w'.evident := by
  refine h.evident hw ?_
  intro hvisible
  rw [(headRow_some hrow).2.1, decide_eq_true_eq] at hvisible
  simp only [validateSnapshot, hvisible, Bool.and_eq_true, decide_eq_true_eq] at hvalid
  obtain ⟨⟨⟨⟨⟨⟨⟨⟨hskey, _⟩, _⟩, _⟩, _⟩, _⟩, _⟩, _⟩, hvis⟩ := hvalid
  have hvis : validVisible s.projection.state = true := by simpa using hvis
  have hids := hvis
  simp only [validVisible, Bool.and_eq_true] at hids
  have hst : s.projection.tenantId = held.tenantId := congrArg Key.tenantId hskey
  have hitem : [Installed.snapshot s].getLast? = some (.snapshot s) := rfl
  refine h.evidence hrow hitem hvis ?_ ?_
  · rw [hkey, ← hskey]
    simp [Installed.showing, hvisible, Projection.version]
  · refine authorized_of_bound (hbound hvisible) ?_ hids.1.1.1 ?_ rfl rfl
    · change isUuidv7 s.projection.tenantId = true
      rw [hst, htenant]
    · exact hkey.trans hskey.symm

end NewHeads

/-! ## The projector, step by step -/

section Walk

variable {ok : World → Op → Choice → Prop} {w : World}

theorem transact_evident {α : Type} {w' : World} {tx : Except Err (α × World)} {ch : Choice}
    {a : Except Err α} (h : transact w tx ch = some (a, w')) (hinv : w.evident)
    (hcommit : ∀ b, tx = .ok (b, w') → Grows w w' ∧ w'.evident) : Grows w w' ∧ w'.evident := by
  rcases transact_cases h with ⟨rfl, _⟩ | ⟨b, htx, _⟩
  · exact ⟨Grows.refl _, hinv⟩
  · exact hcommit b htx

theorem ens_validateAuthorizationBindings {facts : List RouteFact} : ∀ {w : World},
    Ensures machine ok discipline
      (fun res w' => res = .ok () → ∀ f ∈ facts, f.kind = .ringing → w'.bound f)
      (validateAuthorizationBindings facts) w := by
  induction facts with
  | nil =>
    exact ensures_pure fun _ => by simp
  | cons f fs ih =>
    unfold validateAuthorizationBindings
    by_cases hring : f.kind = .ringing
    · simp only [hring]
      refine ensures_perform ?_
      intro w₁ _ hinv ch a w₂ _ hp
      rcases readAnswer_cases hp with ⟨rfl, ha⟩
      refine ⟨Grows.refl _, hinv, ?_⟩
      cases a with
      | error e => exact ensures_pure fun h => by cases h
      | ok binding =>
        by_cases hb : binding = some (f.interactionId, f.receiptId)
        · simp only [hb]
          have hbound : w₂.bound f := by
            rcases ha with ha | ha
            · exact bound_of_authorization (by rw [← ha, hb])
            · cases ha
          refine Ensures.of_rely id ?_ (show discipline.Rely w₂ w₂ from Grows.refl w₂) hinv ih
          intro res w' hg _ hres hok g hgmem hgring
          rcases List.mem_cons.1 hgmem with rfl | hgmem
          · exact bound_mono hbound hg
          · exact hres hok g hgmem hgring
        · simp only [hb]
          exact ensures_pure fun h => by cases h
    · simp only [hring, ne_eq]
      refine Ensures.mono ?_ ih
      intro res w' hres hok g hgmem hgring
      rcases List.mem_cons.1 hgmem with rfl | hgmem
      · exact absurd hgring hring
      · exact hres hok g hgmem hgring

abbrev Anything (_ : Outcome) (_ : World) : Prop := True

variable {intent : ReconcileIntent} {held : RouteFact} {p : Projection}
variable {f : RouteFact} {tenantId interactionId : String}

theorem ens_recordPoison {q : Except Err Unit → Program Outcome}
    (hq : ∀ res w, Ensures machine ok discipline Anything (q res) w) :
    Ensures machine ok discipline Anything (Prog.perform (Op.recordPoison f) >>= q) w := by
  refine ensures_perform ?_
  intro w₁ _ hinv ch a w₂ _ hp
  rcases transact_evident hp hinv fun b hb =>
    ⟨(Store.recordPoison_ok hb).grows, (Store.recordPoison_ok hb).evident hinv⟩ with ⟨hg, hev⟩
  exact ⟨hg, hev, hq a w₂⟩

theorem ens_snapshotUnknown {principal : ProjectionPrincipal} (hkey : intent.key = held.key)
    (htenant : isUuidv7 held.tenantId = true) :
    Ensures machine ok discipline Anything (snapshotUnknown principal intent held) w := by
  refine ensures_perform ?_
  intro w₁ _ hinv ch a w₂ _ hp
  cases ch with
  | snapshotted answer =>
    obtain ⟨rfl, rfl⟩ := Prod.mk.inj (Option.some.inj (hp : some (answer, w₁) = some (a, w₂)))
    refine ⟨Grows.refl _, hinv, ?_⟩
    cases answer with
    | error e => exact ensures_pure trivial
    | ok s =>
      by_cases hvalid : validateSnapshot s intent held = true
      · simp only [hvalid]
        refine ensures_bind (Ensures.mono ?_ ens_validateAuthorizationBindings)
        intro res w₃ hres
        cases res with
        | error e => exact ensures_pure trivial
        | ok u =>
          refine ensures_perform ?_
          intro w₄ hg₄ hinv₄ ch a w₅ _ hp
          have hbound : s.projection.state.visibility = .visible → w₄.bound s.ringing := by
            intro hvis
            exact bound_mono (hres rfl s.ringing (by simp [hvis]) rfl) hg₄
          rcases transact_evident hp hinv₄ fun b hb => by
            rcases Store.installSnapshotAndAudit_ok hb with hkeeps | ⟨row, hrow, hrep⟩
            · exact ⟨hkeeps.grows, hkeeps.evident hinv₄⟩
            · exact ⟨hrep.grows, hrep.evident_snapshot hrow hinv₄ hvalid hkey htenant hbound⟩
            with ⟨hg, hev⟩
          exact ⟨hg, hev, ensures_pure trivial⟩
      · simp only [hvalid]
        exact ensures_pure trivial
  | _ => cases hp

theorem ens_replayHistorical {replay : ReplayResult} :
    Ensures machine ok discipline Anything (replayHistorical intent held replay) w := by
  unfold replayHistorical
  split
  · next replayed _ =>
      split
      · exact ensures_pure trivial
      · split
        · refine ens_recordPoison ?_
          intro res w
          cases res <;> exact ensures_pure trivial
        · refine ensures_bind (Ensures.mono ?_ ens_validateAuthorizationBindings)
          intro res w₁ _
          cases res with
          | error e => exact ensures_pure trivial
          | ok u =>
            refine ensures_perform ?_
            intro w₂ _ hinv ch a w₃ _ hp
            rcases transact_evident hp hinv fun b hb =>
              ⟨(Store.installHistoricalIdentity_ok hb).grows,
                (Store.installHistoricalIdentity_ok hb).evident hinv⟩ with ⟨hg, hev⟩
            exact ⟨hg, hev, ensures_pure trivial⟩
  · exact ensures_pure trivial

theorem ens_replayGap {replay : ReplayResult} (hkey : intent.key = held.key) :
    Ensures machine ok discipline Anything (replayGap p intent held replay) w := by
  unfold replayGap
  split
  · exact ensures_pure trivial
  · next hkeys =>
      have hkeys : ∀ f ∈ replay.facts, f.key = intent.key := by
        intro f hf
        have : ¬ decide (f.key ≠ held.key) = true := fun h => hkeys (List.any_eq_true.2 ⟨f, hf, h⟩)
        simpa [hkey] using this
      refine ensures_bind (Ensures.mono ?_ ens_validateAuthorizationBindings)
      intro res w₁ hres
      cases res with
      | error e => exact ensures_pure trivial
      | ok u =>
        cases hfold : foldBatch p replay.facts with
        | error e => exact ensures_pure trivial
        | ok final =>
          by_cases hcovers : coversHeld held replay = true
          · simp only [hcovers]
            refine ensures_perform ?_
            intro w₂ hg₂ hinv ch a w₃ _ hp
            rcases transact_evident hp hinv fun b hb => by
              rcases Store.installReconcileBatch_ok hb with hkeeps | ⟨row, hne, hrow, hrep⟩
              · exact ⟨hkeeps.grows, hkeeps.evident hinv⟩
              · exact ⟨hrep.grows, hrep.evident_batch hrow hinv hne hfold hkeys fun f hf hring =>
                  bound_mono (hres rfl f hf hring) hg₂⟩
              with ⟨hg, hev⟩
            exact ⟨hg, hev, ensures_pure trivial⟩
          · simp only [hcovers]
            exact ensures_pure trivial

theorem ens_reconcile {historical : Bool} (htenant : isUuidv7 held.tenantId = true) :
    Ensures machine ok discipline Anything (reconcile p held historical) w := by
  refine ensures_perform ?_
  intro w₁ _ hinv ch token w₂ _ hp
  cases ch with
  | id s =>
    change (if isUuidv7 s then some (s, w₁) else none) = some (token, w₂) at hp
    split at hp
    · next huuid =>
        obtain ⟨rfl, rfl⟩ := Prod.mk.inj (Option.some.inj hp)
        refine ⟨Grows.refl _, hinv, ?_⟩
        simp only [huuid]
        refine ensures_perform ?_
        intro w₃ _ hinv₃ ch a w₄ _ hp
        rcases transact_cases hp with ⟨rfl, e, rfl⟩ | ⟨⟨intent, started⟩, htx, ha⟩
        · exact ⟨Grows.refl _, hinv₃, ensures_pure trivial⟩
        · rcases Store.beginReconcile_ok htx with ⟨hkeeps, hkey⟩
          refine ⟨hkeeps.grows, hkeeps.evident hinv₃, ?_⟩
          rcases ha with rfl | rfl
          · cases started with
            | false => exact ensures_pure trivial
            | true =>
              -- The router answers, and its answer decides how to go on.
              refine ensures_perform ?_
              intro w₅ _ hinv₅ ch a w₆ _ hp
              cases ch with
              | replayed answer =>
                obtain ⟨rfl, rfl⟩ :=
                  Prod.mk.inj (Option.some.inj (hp : some (answer, w₅) = some (a, w₆)))
                refine ⟨Grows.refl _, hinv₅, ?_⟩
                cases answer with
                | error e =>
                  by_cases hunknown : .unknownHistory ∈ e
                  · simp only [hunknown]
                    exact ens_snapshotUnknown hkey htenant
                  · simp only [hunknown]
                    exact ensures_pure trivial
                | ok replay =>
                  cases historical with
                  | true => exact ens_replayHistorical
                  | false => exact ens_replayGap hkey
              | _ => cases hp
          · exact ensures_pure trivial
    · cases hp
  | _ => cases hp

theorem ens_applyLoaded {retained : Option Identity} (htenant : isUuidv7 f.tenantId = true) :
    Ensures machine ok discipline Anything (applyLoaded f p retained) w := by
  unfold applyLoaded
  split
  · cases retained with
    | none => exact ens_reconcile htenant
    | some identity =>
      dsimp only
      split
      · exact ensures_pure trivial
      · refine ens_recordPoison ?_
        intro res w
        cases res <;> exact ensures_pure trivial
  · split
    · exact ens_reconcile htenant
    · refine ensures_bind (Ensures.mono ?_ ens_validateAuthorizationBindings)
      intro res w₁ hres
      cases res with
      | error e => exact ensures_pure trivial
      | ok u =>
        cases hfold : foldBatch p [f] with
        | error e => exact ensures_pure trivial
        | ok final =>
          refine ensures_perform ?_
          intro w₂ hg₂ hinv ch a w₃ _ hp
          rcases transact_evident hp hinv fun b hb => by
            rcases Store.installBatch_ok hb with hkeeps | ⟨g, gs, row, hcons, hrow, hrep⟩
            · exact ⟨hkeeps.grows, hkeeps.evident hinv⟩
            · cases hcons
              exact ⟨hrep.grows, hrep.evident_batch hrow hinv (by simp) hfold (by simp)
                fun g hg hring => bound_mono (hres rfl g hg hring) hg₂⟩
            with ⟨hg, hev⟩
          exact ⟨hg, hev, ensures_pure trivial⟩

/-! ## Loading -/

/-- What a loaded projection rests on: a clock reading, and, if it is visible, something that showed
the interaction.  `w₀` is the world in which the call started. -/
def Loaded (w₀ : World) (tenantId interactionId : String) (p : Projection) (w : World) : Prop :=
  ∃ now, w₀.now ≤ now ∧ now ≤ w.now ∧ p.databaseNow = now * 1000 ∧
    (p.state.visibility = .visible → ∃ key item s, uuidKey tenantId interactionId = some key ∧
      item ∈ w.installed key ∧ Shown w key item s ∧ p.state.leaseUntil = s.leaseUntil / 1000 * 1000)

theorem Loaded.mono {w₀ w' : World} (h : Loaded w₀ tenantId interactionId p w) (hg : Grows w w') :
    Loaded w₀ tenantId interactionId p w' := by
  rcases h with ⟨now, hborn, hle, hnow, hvis⟩
  refine ⟨now, hborn, hle.trans hg.now, hnow, fun hv => ?_⟩
  rcases hvis hv with ⟨key, item, s, hkey, hitem, hshown, hlease⟩
  exact ⟨key, item, s, hkey, (hg.installed key).subset hitem, hshown.mono hg, hlease⟩

theorem loaded_of_head {w₀ : World} {key : Key} {now : Int} (hinv : w.evident)
    (hkey : uuidKey tenantId interactionId = some key) (hborn : w₀.now ≤ now) (hle : now ≤ w.now) :
    Loaded w₀ tenantId interactionId
      ⟨tenantId, interactionId, ((w.heads key).getD HeadRow.initial).state, now * 1000⟩ w := by
  refine ⟨now, hborn, hle, rfl, fun hv => ?_⟩
  cases hrow : w.heads key with
  | none =>
    rw [hrow] at hv
    cases hv
  | some row =>
    rw [hrow] at hv
    have hvisible : row.visible = true := by
      by_contra hhidden
      simp [HeadRow.state, hhidden] at hv
    rcases hinv key row hrow hvisible with ⟨item, s, hev⟩
    refine ⟨key, item, s, hkey, List.mem_of_getLast? hev.last, hev.toShown, ?_⟩
    simp [HeadRow.state, timeOf, hev.leaseUntil]

theorem ens_load {version : Nat} :
    Ensures machine ok discipline
      (fun res w' => ∀ p retained, res = .ok (p, retained) → Loaded w tenantId interactionId p w')
      (load tenantId interactionId version) w := by
  refine ensures_perform ?_
  intro w₁ hg₁ hinv₁ ch a w₂ _ hp
  rcases readAnswer_cases hp with ⟨rfl, rfl | rfl⟩
  · refine ⟨Grows.refl _, hinv₁, ensures_perform ?_⟩
    intro w₃ hg₃ hinv₃ ch a w₄ _ hp
    rcases readAnswer_cases hp with ⟨rfl, ha⟩
    refine ⟨Grows.refl _, hinv₃, ?_⟩
    cases a with
    | error e => exact ensures_pure fun _ _ h => by cases h
    | ok row =>
      have hloaded : Loaded w tenantId interactionId
          ⟨tenantId, interactionId, (row.getD HeadRow.initial).state, w₂.now * 1000⟩ w₄ := by
        cases hkey : uuidKey tenantId interactionId with
        | none =>
          rw [hkey] at ha
          rcases ha with ha | ha <;> cases ha
        | some key =>
          rw [hkey] at ha
          rcases ha with ha | ha
          · cases ha
            exact loaded_of_head hinv₃ hkey hg₁.now hg₃.now
          · cases ha
      dsimp only
      unfold loadLedger
      split
      · refine ensures_pure ?_
        intro p retained h
        cases h
        exact hloaded
      · refine ensures_perform ?_
        intro w₅ hg₅ hinv₅ ch a w₆ _ hp
        rcases readAnswer_cases hp with ⟨rfl, _⟩
        refine ⟨Grows.refl _, hinv₅, ?_⟩
        cases a with
        | error e => exact ensures_pure fun _ _ h => by cases h
        | ok ret =>
          refine ensures_pure ?_
          intro p retained h
          cases h
          exact hloaded.mono hg₅
  · exact ⟨Grows.refl _, hinv₁, ensures_pure fun _ _ h => by cases h⟩

theorem ens_apply : Ensures machine ok discipline Anything (apply f) w := by
  unfold apply
  by_cases hvalid : validateFact f = true
  · have htenant : isUuidv7 f.tenantId = true := by
      simp only [validateFact, Bool.and_eq_true] at hvalid
      exact hvalid.1.1.1.1
    simp only [hvalid]
    refine ensures_bind (Ensures.mono ?_ ens_load)
    intro res w₁ _
    cases res with
    | error e => exact ensures_pure trivial
    | ok loaded => exact ens_applyLoaded htenant
  · simp only [hvalid]
    exact ensures_pure trivial

/-- The answer `true` means that, at a time during the call, the interaction was shown and its lease
had not run out. -/
def Seen (w₀ : World) (tenantId interactionId : String) (w : World) : Prop :=
  ∃ key item s now, uuidKey tenantId interactionId = some key ∧ item ∈ w.installed key ∧
    Shown w key item s ∧ w₀.now ≤ now ∧ now ≤ w.now ∧ now * 1000 < s.leaseUntil

theorem ens_visible :
    Ensures machine ok discipline (fun res w' => res = .ok true → Seen w tenantId interactionId w')
      (visible tenantId interactionId) w := by
  refine ensures_bind (Ensures.mono ?_ ens_load)
  intro res w₁ hres
  cases res with
  | error e => exact ensures_pure fun h => by cases h
  | ok loaded =>
    rcases loaded with ⟨p, retained⟩
    dsimp only
    split
    · exact ensures_pure fun h => by cases h
    · next hshow =>
        refine ensures_pure ?_
        intro h
        simp only [not_or, not_not] at hshow
        rcases hres p retained rfl with ⟨now, hborn, hle, hnow, hvis⟩
        rcases hvis hshow.1 with ⟨key, item, s, hkey, hitem, hshown, hlease⟩
        refine ⟨key, item, s, now, hkey, hitem, hshown, hborn, hle, ?_⟩
        have hlt : p.databaseNow < p.state.leaseUntil := by simpa using h
        omega

theorem ens_acceptDelivery {principal : Delivery.Principal} {a : Delivery.DeliveryAuthorization} :
    Ensures machine ok discipline (fun _ _ => True) (Delivery.acceptDelivery principal a) w := by
  unfold Delivery.acceptDelivery
  cases Delivery.checkRequest principal a with
  | error e => exact ensures_pure trivial
  | ok u =>
    refine ensures_perform ?_
    intro w₁ _ hinv ch id w₂ _ hp
    cases ch with
    | id s =>
      change (if isUuidv7 s then some (s, w₁) else none) = some (id, w₂) at hp
      split at hp
      · obtain ⟨rfl, rfl⟩ := Prod.mk.inj (Option.some.inj hp)
        refine ⟨Grows.refl _, hinv, ?_⟩
        split
        · exact ensures_pure trivial
        · refine ensures_perform ?_
          intro w₃ _ hinv₃ ch res w₄ _ hp
          rcases performAppend_cases hp with ⟨rfl, _⟩ | ⟨n, lost, result, tables, _, happ, rfl, _⟩
          · refine ⟨Grows.refl _, hinv₃, ?_⟩
            cases res <;> exact ensures_pure trivial
          · have hauth : w₃.delivery.authorizations.rows <+: tables.authorizations.rows := by
              rcases Delivery.append_ok happ with ⟨rfl, _⟩ | ⟨_, hacc⟩
              · exact List.prefix_rfl
              · simp [hacc.authorizations]
            have hg : Grows w₃ { w₃ with delivery := tables } :=
              ⟨hauth, fun _ => List.prefix_rfl, le_rfl⟩
            refine ⟨hg, ?_, ?_⟩
            · intro key row hrow hvisible
              rcases hinv₃ key row hrow hvisible with ⟨item, s, hev⟩
              exact ⟨item, s, hev.mono hg rfl⟩
            · cases res <;> exact ensures_pure trivial
      · cases hp
    | _ => cases hp

end Walk

/-! ## Runs -/

inductive Call where
  | acceptDelivery (principal : Delivery.Principal) (authorization : Delivery.DeliveryAuthorization)
  | apply (fact : RouteFact)
  | visible (tenantId interactionId : String)
  deriving DecidableEq

inductive Res where
  | accepted (answer : Except Delivery.Err Delivery.DeliveryReceipt)
  | applied (outcome : Outcome)
  | shown (answer : Except Err Bool)
  deriving DecidableEq

def serve : Call → Program Res
  | .acceptDelivery principal a => do return .accepted (← Delivery.acceptDelivery principal a)
  | .apply f => do return .applied (← apply f)
  | .visible tenantId interactionId => do return .shown (← visible tenantId interactionId)

abbrev anything : Policy Op Call World Choice Nat :=
  Policy.free

def Answered (call : Call) (w₀ : World) (res : Res) (w : World) : Prop :=
  ∀ tenantId interactionId, call = .visible tenantId interactionId → res = .shown (.ok true) →
    Seen w₀ tenantId interactionId w

theorem Seen.mono {w₀ w w' : World} {tenantId interactionId : String}
    (h : Seen w₀ tenantId interactionId w) (hg : Grows w w') : Seen w₀ tenantId interactionId w' := by
  rcases h with ⟨key, item, s, now, hkey, hitem, hshown, hborn, hle, hlt⟩
  exact ⟨key, item, s, now, hkey, (hg.installed key).subset hitem, hshown.mono hg, hborn,
    hle.trans hg.now, hlt⟩

theorem ens_serve {ok : World → Op → Choice → Prop} {w : World} (call : Call) :
    Ensures machine ok discipline (Answered call w) (serve call) w := by
  cases call with
  | acceptDelivery principal a =>
    refine ensures_bind (Ensures.mono ?_ ens_acceptDelivery)
    intro res w₁ _
    exact ensures_pure fun _ _ h => by cases h
  | apply f =>
    refine ensures_bind (Ensures.mono ?_ ens_apply)
    intro res w₁ _
    exact ensures_pure fun _ _ h => by cases h
  | visible tenantId interactionId =>
    refine ensures_bind (Ensures.mono ?_ ens_visible)
    intro res w₁ hres
    refine ensures_pure ?_
    intro t i hcall hshown
    cases hcall
    cases hshown
    exact hres rfl

section Runs

variable {now : Int} {c : Config Ans Call World Res}

end Runs

/-! ## An interaction that rings -/

namespace Scenario

open Delivery.Scenario (request receiptId corex)

abbrev Schedule := List (Label Call Choice Nat)

def key : Key := ⟨request.tenantId, request.interactionId⟩

def start : Int := 63891000000000000

def ringing : RouteFact where
  tenantId := key.tenantId
  interactionId := key.interactionId
  eventId := "018f4000-0000-7000-8000-000000000041"
  version := 1
  kind := .ringing
  deliveryAuthorizationId := request.deliveryAuthorizationId
  receiptId := receiptId
  visibilityGeneration := 1
  leaseUntil := start * 1000 + 30000000000

def acts (i : Nat) (chs : List Choice) : Schedule :=
  chs.map (.act i)

def rung : Schedule :=
  [.spawn (.acceptDelivery corex ⟨request, [], []⟩)] ++ acts 0 [.id receiptId, .sequence 1 false] ++
    [.spawn (.apply ringing)] ++ acts 1 [.go, .go, .go, .go, .go] ++ [.tick 5] ++
    [.spawn (.visible key.tenantId key.interactionId)] ++ acts 2 [.go, .go]

end Scenario

end RelayPoint.RouteProjection
