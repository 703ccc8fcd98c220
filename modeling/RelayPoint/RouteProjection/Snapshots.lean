import RelayPoint.RouteProjection.Recovery

/-!
# Snapshots — installing the router's state in place of its history

When the router no longer has the facts that are asked for, the projector installs its snapshot and
sets the held fact aside.  `validateSnapshot` compares the snapshot with the head only, which lets
through snapshots that do not reach the held fact and snapshots that the ledgers refuse.
-/

namespace RelayPoint.RouteProjection

open Concurrency
open Participation (Key EventRow IntentRow IntentStatus fitsBigint fitsText)

/-! ## What every transaction keeps -/

structure Filed (w : World) : Prop where
  alerted : ∀ a ∈ w.alerts.rows, ∃ r ∈ w.intents.rows, r.key.tenantId = a.key.tenantId ∧
    r.token = a.reconcileToken ∧ r.status ≠ .pending
  mirrored : ∀ e ∈ w.events.rows, ∃ v ∈ w.versions.rows, v.key = e.key ∧ v.version = e.version

section Filed

variable {w w' : World} {key : Key} {intent : ReconcileIntent} {facts : List RouteFact}
  {final : FoldedState} {b : Bool}

theorem filed_empty (now : Int) : Filed (World.empty now) :=
  ⟨by simp [World.empty], by simp [World.empty]⟩

structure SameFiles (w w' : World) : Prop where
  versions : w'.versions = w.versions
  events : w'.events = w.events
  intents : w'.intents = w.intents
  alerts : w'.alerts = w.alerts

theorem Filed.same (hw : Filed w) (h : SameFiles w w') : Filed w' where
  alerted := by simpa only [h.alerts, h.intents] using hw.alerted
  mirrored := by simpa only [h.versions, h.events] using hw.mirrored

theorem sameFiles_ensureProjectionHead (w : World) (key : Key) :
    SameFiles w (w.ensureProjectionHead key) := by
  rcases ensureProjectionHead_eq w key with ⟨heads, heq, _⟩
  rw [heq]
  exact ⟨rfl, rfl, rfl, rfl⟩

theorem Filed.intents (hw : Filed w) {intents : Table IntentRow IntentRow.Clash}
    (hstay : ∀ r ∈ w.intents.rows, r.status ≠ .pending → r ∈ intents.rows) :
    Filed { w with intents := intents } where
  alerted := by
    intro a ha
    rcases hw.alerted a ha with ⟨r, hr, htenant, htoken, hstatus⟩
    exact ⟨r, hstay r hr hstatus, htenant, htoken, hstatus⟩
  mirrored := hw.mirrored

theorem Filed.completeIntent (hw : Filed w) (tenantId token : String) (status : IntentStatus) :
    Filed (w.completeIntent tenantId token status) :=
  hw.intents fun r hr hstatus => List.mem_map.2 ⟨r, hr, if_neg fun h => hstatus h.2.2⟩

theorem rows_insertLedgerRows {row : VersionRow} (h : insertLedgerRows w row = .ok w') :
    ∃ versions events, w' = { w with versions, events } ∧ versions.rows = w.versions.rows ++ [row] ∧
      events.rows = w.events.rows ++ [⟨row.key, row.eventId, row.version, row.hash⟩] := by
  unfold insertLedgerRows at h
  split at h
  · cases h
  · split at h
    · cases h
    · next versions hversions =>
        split at h
        · cases h
        · next events hevents =>
            cases h
            exact ⟨versions, events, rfl, (Table.insert_eq_some hversions).1,
              (Table.insert_eq_some hevents).1⟩

theorem Filed.insertLedgerRows {row : VersionRow} (hw : Filed w)
    (h : RouteProjection.insertLedgerRows w row = .ok w') : Filed w' := by
  rcases rows_insertLedgerRows h with ⟨versions, events, rfl, hversions, hevents⟩
  refine ⟨hw.alerted, fun e he => ?_⟩
  rw [hevents] at he
  rw [hversions]
  rcases List.mem_append.1 he with he | he
  · rcases hw.mirrored e he with ⟨v, hv, hsame⟩
    exact ⟨v, List.mem_append_left _ hv, hsame⟩
  · rw [List.mem_singleton.1 he]
    exact ⟨row, by simp, rfl, rfl⟩

theorem Filed.insertFactLedgers {f : RouteFact} (hw : Filed w)
    (h : RouteProjection.insertFactLedgers w f = .ok w') : Filed w' := by
  unfold RouteProjection.insertFactLedgers at h
  split at h
  · cases h
  · exact hw.insertLedgerRows h

theorem Filed.insertFacts : ∀ {w : World}, Filed w →
    RouteProjection.insertFacts w facts = .ok w' → Filed w' := by
  induction facts with
  | nil =>
    intro w hw h
    cases h
    exact hw
  | cons f fs ih =>
    intro w hw h
    cases hf : RouteProjection.insertFactLedgers w f with
    | error e => simp [RouteProjection.insertFacts, hf] at h
    | ok w₁ => exact ih (hw.insertFactLedgers hf) (by simpa [RouteProjection.insertFacts, hf] using h)

theorem Filed.installFacts (hw : Filed w) (h : Store.installFacts w key facts final = .ok w') :
    Filed w' := by
  unfold Store.installFacts at h
  split at h
  · cases h
  · next w₁ hfacts =>
      have hw₁ := (hw.same (sameFiles_ensureProjectionHead w key)).insertFacts hfacts
      split at h
      · cases h
      · cases h
        exact hw₁.same ⟨rfl, rfl, rfl, rfl⟩

theorem Filed.installBatch {expected : Nat} (hw : Filed w)
    (h : Store.installBatch w expected facts final = .ok (b, w')) : Filed w' := by
  unfold Store.installBatch at h
  split at h
  · cases h
  · next f fs =>
      split at h
      · cases h
        exact hw.same (sameFiles_ensureProjectionHead w f.key)
      · split at h
        · cases h
        · next w₁ hinstall =>
            cases h
            exact hw.installFacts hinstall

theorem Filed.installReconcileBatch (hw : Filed w)
    (h : Store.installReconcileBatch w intent facts final = .ok (b, w')) : Filed w' := by
  unfold Store.installReconcileBatch at h
  split at h
  · cases h
  · split at h
    · cases h
      exact hw.same (sameFiles_ensureProjectionHead w intent.key)
    · split at h
      · cases h
      · next w₁ hinstall =>
          cases h
          exact (hw.installFacts hinstall).completeIntent _ _ _

theorem Filed.beginReconcile {proposed : ReconcileIntent} (hw : Filed w)
    (h : Store.beginReconcile w proposed = .ok ((intent, b), w')) : Filed w' := by
  have hintents := (sameFiles_ensureProjectionHead w proposed.key).intents
  have hsame := hw.same (sameFiles_ensureProjectionHead w proposed.key)
  unfold Store.beginReconcile at h
  split at h
  · cases h
    exact hsame
  · split at h
    · cases h
      exact hsame
    · split at h
      · cases h
      · split at h
        · cases h
        · next intents hinsert =>
            cases h
            refine hsame.intents fun r hr _ => ?_
            rw [hintents] at hr
            rw [(Table.insert_eq_some hinsert).1]
            exact List.mem_append_left _ hr

theorem Filed.installHistoricalIdentity {f : RouteFact} (hw : Filed w)
    (h : Store.installHistoricalIdentity w intent f = .ok (b, w')) : Filed w' := by
  have hsame := hw.same (sameFiles_ensureProjectionHead w intent.key)
  unfold Store.installHistoricalIdentity at h
  split at h
  · cases h
    exact hsame
  · split at h
    · cases h
    · next w₁ hledgers =>
        cases h
        exact (hsame.insertFactLedgers hledgers).completeIntent _ _ _

theorem Filed.installSnapshotAndAudit {s : Snapshot} {held : RouteFact} (hw : Filed w)
    (h : Store.installSnapshotAndAudit w intent s held = .ok (b, w')) : Filed w' := by
  have hsame := sameFiles_ensureProjectionHead w intent.key
  unfold Store.installSnapshotAndAudit at h
  split at h
  · cases h
    exact hw.same hsame
  · next hlock =>
      have hlock : ∃ r ∈ w.intents.rows, r.key = intent.key ∧ r.token = intent.token ∧
          r.status = .pending := by
        simp only [not_not, World.lockIntent, World.pendingIntentMatches, Bool.and_eq_true,
          decide_eq_true_eq, List.any_eq_true] at hlock
        rcases hlock.2 with ⟨r, hr, ⟨⟨hkey, htoken⟩, _⟩, hstatus⟩
        exact ⟨r, hr, hkey, htoken, hstatus⟩
      split at h
      · cases h
      · next row _ =>
          split at h
          · cases h
          · split at h
            · cases h
            · next w₁ hledgers =>
                have hset : Filed ((w.ensureProjectionHead intent.key).setHead intent.key row
                    [.snapshot s]) := (hw.same hsame).same ⟨rfl, rfl, rfl, rfl⟩
                have hw₁ := hset.insertLedgerRows hledgers
                have hintents : w₁.intents = w.intents := by
                  rcases rows_insertLedgerRows hledgers with ⟨versions, events, rfl, _⟩
                  exact hsame.intents
                split at h
                · cases h
                · next w₂ haudit =>
                    cases h
                    unfold Store.insertAudit at haudit
                    split at haudit
                    · cases haudit
                    · cases haudit
                      refine ⟨fun a ha => ?_, hw₁.mirrored⟩
                      rcases Table.mem_insertOrIgnore ha with ha | rfl
                      · exact (hw₁.completeIntent _ _ _).alerted a ha
                      · rcases hlock with ⟨r, hr, hkey, htoken, hstatus⟩
                        refine ⟨{ r with status := .audited }, List.mem_map.2 ⟨r, hintents ▸ hr, ?_⟩,
                          congrArg Key.tenantId hkey, htoken, by simp⟩
                        exact if_pos ⟨congrArg Key.tenantId hkey, htoken, hstatus⟩

theorem Filed.transact {α : Type} {tx : Except Err (α × World)} {ch : Choice} {a : Except Err α}
    (hw : Filed w) (hcommit : ∀ b w', tx = .ok (b, w') → Filed w')
    (hp : RouteProjection.transact w tx ch = some (a, w')) : Filed w' := by
  rcases transact_cases hp with ⟨rfl, _⟩ | ⟨b, htx, _⟩
  · exact hw
  · exact hcommit b w' htx

theorem Filed.perform {op : Op} {ch : Choice} {a : Ans op} (hw : Filed w)
    (hp : machine.perform w op ch = some (a, w')) : Filed w' := by
  cases op with
  | clock | readHead tenantId interactionId | readLedger tenantId interactionId version
  | authorization tenantId authorizationId => exact (readAnswer_cases hp).1 ▸ hw
  | installBatch expected facts final => exact hw.transact (fun _ _ h => hw.installBatch h) hp
  | beginReconcile proposed => exact hw.transact (fun _ _ h => hw.beginReconcile h) hp
  | installReconcileBatch intent facts final =>
    exact hw.transact (fun _ _ h => hw.installReconcileBatch h) hp
  | installHistoricalIdentity intent fact =>
    exact hw.transact (fun _ _ h => hw.installHistoricalIdentity h) hp
  | installSnapshotAndAudit intent s held =>
    exact hw.transact (fun _ _ h => hw.installSnapshotAndAudit h) hp
  | recordPoison fact =>
    refine hw.transact (fun _ _ h => ?_) hp
    unfold Store.recordPoison at h
    split at h
    · cases h
    · cases h
      exact hw.same ⟨rfl, rfl, rfl, rfl⟩
  | append input =>
    rcases performAppend_cases hp with ⟨rfl, _⟩ | ⟨_, _, _, _, _, _, rfl, _⟩
    · exact hw
    · exact hw.same ⟨rfl, rfl, rfl, rfl⟩
  | ids =>
    cases ch with
    | id s =>
      change (if Participation.isUuidv7 s then some (s, w) else none) = some (a, w') at hp
      split at hp
      · cases hp
        exact hw
      · cases hp
    | _ => cases hp
  | replayRouteFacts principal request =>
    cases ch with
    | replayed answer =>
      cases hp
      exact hw
    | _ => cases hp
  | getRouteSnapshot principal key =>
    cases ch with
    | snapshotted answer =>
      cases hp
      exact hw
    | _ => cases hp

theorem reachable_filed {now : Int} {c : Config Ans Call World Res}
    (hreach : Reachable machine serve anything (World.empty now) c) : Filed c.world := by
  refine hreach.invariant Filed.perform ?_ (filed_empty now)
  intro w t w' hw ht
  cases ht
  exact hw.same ⟨rfl, rfl, rfl, rfl⟩

end Filed

/-! ## The install -/

/-- What `validateSnapshot` leaves open: the snapshot reaches the held fact, its version and its head
event are new to the ledgers, and the columns accept all of it. -/
structure World.Admits (w : World) (intent : ReconcileIntent) (s : Snapshot) (held : RouteFact) :
    Prop where
  covers : held.version ≤ s.projection.version
  version : ∀ row ∈ w.versions.rows, ¬ (row.key = intent.key ∧ row.version = s.projection.version)
  event : ∀ row ∈ w.events.rows, ¬ (row.key.tenantId = intent.key.tenantId ∧
    row.eventId = s.projection.state.eventId)
  dlq : ∀ row ∈ w.dlq.rows, row.key = intent.key → row.eventId = held.eventId →
    row.reason = .unknownStaleHistory → row.body = held
  storable : Storable s.projection.state
  provenance : fitsText s.provenance = true
  lease : jsonTime s.projection.state.leaseUntil = true
  databaseNow : jsonTime s.projection.databaseNow = true
  heldLease : jsonTime held.leaseUntil = true

structure SnapshotInstalled (w : World) (intent : ReconcileIntent) (s : Snapshot) (held : RouteFact) :
    Prop where
  head : ∃ row, w.heads intent.key = some row ∧ row.version = s.projection.version ∧
    row.eventId = some s.projection.state.eventId ∧ row.hash = some s.projection.state.hash
  ledger : ⟨intent.key, s.projection.version, s.projection.state.eventId, s.projection.state.hash,
    .snapshot s⟩ ∈ w.versions.rows
  covers : held.version ≤ w.headVersion intent.key
  dlq : ∃ row ∈ w.dlq.rows, row.key = intent.key ∧ row.eventId = held.eventId ∧
    row.reason = .unknownStaleHistory ∧ row.body = held
  alert : ⟨intent.key, intent.token, s, held⟩ ∈ w.alerts.rows
  noIntent : w.pendingIntent intent.key = none

section Install

variable {w : World} {row : IntentRow} {s : Snapshot} {held : RouteFact}

theorem lockIntent_of_pending {key : Key} (hpending : w.pendingIntent key = some row)
    (hhead : row.observedVersion = w.headVersion key) : w.lockIntent (retainedIntent row) = true := by
  rcases mem_pendingIntent hpending with ⟨hmem, hkey, hstatus⟩
  have hversion : w.headVersion (retainedIntent row).key = (retainedIntent row).observedVersion := by
    change w.headVersion row.key = row.observedVersion
    rw [hkey, hhead]
  rw [World.lockIntent, Bool.and_eq_true]
  exact ⟨decide_eq_true hversion, List.any_eq_true.2 ⟨row, hmem, by simp [retainedIntent, hstatus]⟩⟩

theorem pendingIntent_completeIntent {status : IntentStatus} (hmem : row ∈ w.intents.rows)
    (hpending : row.status = .pending) (hstatus : status ≠ .pending) :
    (w.completeIntent row.key.tenantId row.token status).pendingIntent row.key = none := by
  refine List.find?_eq_none.2 fun r hr => ?_
  simp only [decide_eq_true_eq, not_and]
  intro hkey hr'
  rcases List.mem_map.1 hr with ⟨old, hold, rfl⟩
  split at hr'
  · exact hstatus hr'
  · next hother =>
      rw [if_neg hother] at hkey
      have hsame : old = row := w.intents.mem_eq_of_clash IntentRow.clash_symm hold hmem
        (.inr ⟨hkey, hr', hpending⟩)
      subst hsame
      exact hother ⟨rfl, rfl, hr'⟩

theorem Filed.alert_free (hw : Filed w) (hmem : row ∈ w.intents.rows)
    (hpending : row.status = .pending) :
    ∀ a ∈ w.alerts.rows, ¬ AlertRow.Clash a ⟨row.key, row.token, s, held⟩ := by
  rintro a ha ⟨htenant, htoken⟩
  rcases hw.alerted a ha with ⟨r, hr, hrtenant, hrtoken, hstatus⟩
  have hsame : r = row := w.intents.mem_eq_of_clash IntentRow.clash_symm hr hmem
    (.inl ⟨hrtenant.trans htenant, hrtoken.trans htoken⟩)
  exact hstatus (hsame ▸ hpending)

variable {intent : ReconcileIntent}

theorem World.Admits.event_free (h : w.Admits intent s held) (hw : Filed w) :
    ∀ e ∈ w.events.rows, ¬ EventRow.Clash e ⟨intent.key, s.projection.state.eventId,
      s.projection.version, s.projection.state.hash⟩ := by
  rintro e he (hclash | ⟨hkey, hversion⟩)
  · exact h.event e he hclash
  · rcases hw.mirrored e he with ⟨v, hv, hvkey, hvversion⟩
    exact h.version v hv ⟨hvkey.trans hkey, hvversion.trans hversion⟩

theorem World.Admits.dlq_row {w' : World} (h : w.Admits intent s held)
    (hdlq : w'.dlq = w.dlq.insertOrIgnore ⟨intent.key, some intent.token, held.eventId, held.version,
      hashRouteFact held, .unknownStaleHistory, held⟩) :
    ∃ row ∈ w'.dlq.rows, row.key = intent.key ∧ row.eventId = held.eventId ∧
      row.reason = .unknownStaleHistory ∧ row.body = held := by
  rw [hdlq]
  rcases Table.exists_insertOrIgnore w.dlq ⟨intent.key, some intent.token, held.eventId, held.version,
    hashRouteFact held, .unknownStaleHistory, held⟩ with ⟨row, hrow, rfl | ⟨hkey, heventId, hreason⟩⟩
  · exact ⟨_, hrow, rfl, rfl, rfl, rfl⟩
  · refine ⟨row, hrow, hkey, heventId, hreason, ?_⟩
    rcases Table.mem_insertOrIgnore hrow with hold | rfl
    · exact h.dlq row hold hkey heventId hreason
    · rfl

theorem World.Admits.ledgers (h : w.Admits intent s held) (hw : Filed w)
    (hpos : s.projection.version ≠ 0) (head : HeadRow) :
    ∃ w₁, insertLedgerRows ((w.ensureProjectionHead intent.key).setHead intent.key head [.snapshot s])
        ⟨intent.key, s.projection.version, s.projection.state.eventId, s.projection.state.hash,
          .snapshot s⟩ = .ok w₁ ∧
      w₁.heads intent.key = some head ∧
      ⟨intent.key, s.projection.version, s.projection.state.eventId, s.projection.state.hash,
        .snapshot s⟩ ∈ w₁.versions.rows ∧
      w₁.dlq = w.dlq ∧ w₁.alerts = w.alerts ∧ w₁.intents = w.intents := by
  rcases ensureProjectionHead_eq w intent.key with ⟨heads, heq, _⟩
  rw [heq]
  rcases insertLedgerRows_total (w := World.setHead { w with heads } intent.key head [.snapshot s])
    ⟨intent.key, s.projection.version, s.projection.state.eventId, s.projection.state.hash,
      .snapshot s⟩ hpos h.storable.version h.version (h.event_free hw) with
    ⟨versions, events, hledgers, hversions, _⟩
  refine ⟨_, hledgers, by simp [World.setHead], ?_, rfl, rfl, rfl⟩
  simp [hversions]

theorem Store.insertAudit_total (w : World) (intent : ReconcileIntent) (s : Snapshot)
    (hlease : jsonTime held.leaseUntil = true) (hpos : held.version ≠ 0)
    (hfits : fitsBigint held.version = true) :
    Store.insertAudit w intent s held = .ok { w with
      dlq := w.dlq.insertOrIgnore ⟨intent.key, some intent.token, held.eventId, held.version,
        hashRouteFact held, .unknownStaleHistory, held⟩
      alerts := w.alerts.insertOrIgnore ⟨intent.key, intent.token, s, held⟩ } :=
  if_neg (by simp [hlease, hpos, hfits])

theorem Store.installSnapshotAndAudit_total (hw : Filed w) {key : Key}
    (hpending : w.pendingIntent key = some row) (hhead : row.observedVersion = w.headVersion key)
    (hheld : validateFact held = true) (hval : validateSnapshot s (retainedIntent row) held = true)
    (h : w.Admits (retainedIntent row) s held) :
    ∃ w', Store.installSnapshotAndAudit w (retainedIntent row) s held = .ok (true, w') ∧
      SnapshotInstalled w' (retainedIntent row) s held := by
  rcases mem_pendingIntent hpending with ⟨hmem, _, hstatus⟩
  have hlock := lockIntent_of_pending hpending hhead
  have hpos : s.projection.version ≠ 0 := by
    simp only [validateSnapshot, Bool.and_eq_true, decide_eq_true_eq] at hval
    tauto
  have hheldPos : held.version ≠ 0 := by
    simp only [validateFact, Bool.and_eq_true, decide_eq_true_eq] at hheld
    tauto
  have hfits : fitsBigint held.version = true := by
    have := h.storable.version
    simp only [fitsBigint, decide_eq_true_eq] at this ⊢
    exact h.covers.trans_lt this
  rcases h.storable.headRow with ⟨head, hrow⟩
  rcases h.ledgers hw hpos head with ⟨w₁, hledgers, hheads, hledger, hdlq, halerts, hintents⟩
  have haudit := Store.insertAudit_total w₁ (retainedIntent row) s h.heldLease hheldPos hfits
  refine ⟨World.completeIntent ?audited (retainedIntent row).key.tenantId (retainedIntent row).token
    .audited, ?_, ?_⟩
  rotate_left
  · unfold Store.installSnapshotAndAudit
    rw [if_neg (by simp [hlock]), hrow]
    dsimp only
    rw [if_neg (by simp [h.provenance, h.lease, h.databaseNow]), hledgers]
    dsimp only
    rw [haudit]
  · refine ⟨⟨head, hheads, (headRow_some hrow).1, headRow_identity hrow⟩, hledger, ?_, ?_, ?_, ?_⟩
    · have hversion : w₁.headVersion (retainedIntent row).key = s.projection.version := by
        simp only [World.headVersion, hheads, (headRow_some hrow).1]
        rfl
      exact h.covers.trans_eq hversion.symm
    · exact h.dlq_row (by rw [← hdlq]; rfl)
    · refine Table.mem_insertOrIgnore_self ?_
      rw [halerts]
      exact hw.alert_free hmem hstatus
    · exact pendingIntent_completeIntent (hintents ▸ hmem) hstatus (by simp)

end Install

/-- In every state that interleaved calls lead to: with a pending intent at the head, a snapshot that
`validateSnapshot` accepts and that the tables admit is installed, and the fact that was held is set
aside. -/
theorem route_snapshot_installed {now : Int} {c : Config Ans Call World Res}
    (hreach : Reachable machine serve anything (World.empty now) c) {key : Key} {row : IntentRow}
    (hpending : c.world.pendingIntent key = some row)
    (hhead : row.observedVersion = c.world.headVersion key) {held : RouteFact} {s : Snapshot}
    (hheld : validateFact held = true) (hval : validateSnapshot s (retainedIntent row) held = true)
    (hadmits : c.world.Admits (retainedIntent row) s held) :
    ∃ w', Store.installSnapshotAndAudit c.world (retainedIntent row) s held = .ok (true, w') ∧
      SnapshotInstalled w' (retainedIntent row) s held :=
  Store.installSnapshotAndAudit_total (reachable_filed hreach) hpending hhead hheld hval hadmits

namespace Scenario

/-- The router has forgotten its facts, and offers its state under this version and head. -/
def offer (version : Nat) (eventId : String) (hash : Participation.Digest) : Snapshot where
  projection := ⟨key.tenantId, key.interactionId,
    ⟨version, eventId, hash, .hidden, "", "", 0, 0⟩, start * 1000⟩
  historyFloor := 1
  provenance := "router"

def latest : Snapshot :=
  offer 3 third.eventId (hashRouteFact third)

def early : Snapshot :=
  offer 2 second.eventId (hashRouteFact second)

def current : Snapshot :=
  offer 1 first.eventId (hashRouteFact first)

/-- The third fact comes first, and the router does not know the ones before it. -/
def forgotten : Schedule :=
  [.spawn (.apply third)] ++ acts 0 [.go, .go, .go, .id token, .go, .replayed (.error [.unknownHistory])]

def forgottenLater : Schedule :=
  [.spawn (.apply first)] ++ acts 0 [.go, .go, .go, .go] ++ [.spawn (.apply third)] ++
    acts 1 [.go, .go, .go, .id token, .go, .replayed (.error [.unknownHistory])]

def wanted (observed : Nat) : IntentRow :=
  ⟨token, key, observed, observed + 1, 3, third.eventId, hashRouteFact third, .pending⟩

end Scenario

open Scenario in
theorem route_snapshot_installed_forgotten :
    ∃ c : Config Ans Call World Res, Reachable machine serve anything (World.empty start) c ∧
      c.world.pendingIntent key = some (wanted 0) ∧
      c.world.Admits (retainedIntent (wanted 0)) latest third ∧
      ∃ w', Store.installSnapshotAndAudit c.world (retainedIntent (wanted 0)) latest third =
          .ok (true, w') ∧
        SnapshotInstalled w' (retainedIntent (wanted 0)) latest third := by
  have hrun : (run machine serve anything forgotten ⟨World.empty start, []⟩).map
      (fun c => (c.world.headVersion key, c.world.pendingIntent key, c.world.versions.rows.isEmpty,
        c.world.events.rows.isEmpty, c.world.dlq.rows.isEmpty)) =
        some (0, some (wanted 0), true, true, true) := by
    decide +kernel
  rcases exists_of_run hrun with ⟨c, hc, hvalue⟩
  simp only [Prod.mk.injEq, List.isEmpty_iff] at hvalue
  rcases hvalue with ⟨hhead, hpending, hversions, hevents, hdlq⟩
  have hadmits : c.world.Admits (retainedIntent (wanted 0)) latest third :=
    { covers := le_rfl
      version := by simp [hversions]
      event := by simp [hevents]
      dlq := by simp [hdlq]
      storable := ⟨by decide, by decide, ⟨none, rfl⟩, ⟨none, rfl⟩⟩
      provenance := by decide
      lease := by decide
      databaseNow := by decide
      heldLease := by decide }
  exact ⟨c, hc, hpending, hadmits, route_snapshot_installed hc hpending hhead.symm
    (by decide +kernel) (by decide +kernel) hadmits⟩

open Scenario in
/-- A snapshot below the held fact is accepted and installed, and one of the head is accepted and
refused by the ledgers. -/
theorem route_snapshot_short_or_refused :
    (∃ c : Config Ans Call World Res, Reachable machine serve anything (World.empty start) c ∧
      c.world.pendingIntent key = some (wanted 0) ∧ c.world.headVersion key = 0 ∧
      validateSnapshot early (retainedIntent (wanted 0)) third = true ∧
      ∃ w', Store.installSnapshotAndAudit c.world (retainedIntent (wanted 0)) early third =
          .ok (true, w') ∧ w'.headVersion key < third.version) ∧
    ∃ c : Config Ans Call World Res, Reachable machine serve anything (World.empty start) c ∧
      c.world.pendingIntent key = some (wanted 1) ∧ c.world.headVersion key = 1 ∧
      ((c.world.heads key).bind HeadRow.eventId) = some current.projection.state.eventId ∧
      ((c.world.heads key).bind HeadRow.hash) = some current.projection.state.hash ∧
      validateSnapshot current (retainedIntent (wanted 1)) third = true ∧
      ∀ installed w', Store.installSnapshotAndAudit c.world (retainedIntent (wanted 1)) current third ≠
        .ok (installed, w') := by
  have hearly : (run machine serve anything forgotten ⟨World.empty start, []⟩).map
      (fun c => (c.world.pendingIntent key, c.world.headVersion key,
        (Store.installSnapshotAndAudit c.world (retainedIntent (wanted 0)) early third).toOption.map
          fun p => (p.1, p.2.headVersion key))) = some (some (wanted 0), 0, some (true, 2)) := by
    decide +kernel
  have hcurrent : (run machine serve anything forgottenLater ⟨World.empty start, []⟩).map
      (fun c => (c.world.pendingIntent key, c.world.headVersion key,
        decide ((c.world.heads key).bind HeadRow.eventId = some first.eventId),
        decide ((c.world.heads key).bind HeadRow.hash = some (hashRouteFact first)),
        (Store.installSnapshotAndAudit c.world (retainedIntent (wanted 1)) current third).isOk)) =
        some (some (wanted 1), 1, true, true, false) := by
    decide +kernel
  constructor
  · rcases exists_of_run hearly with ⟨c, hc, hvalue⟩
    simp only [Prod.mk.injEq] at hvalue
    rcases hvalue with ⟨hpending, hhead, hinstall⟩
    rcases Option.map_eq_some_iff.1 hinstall with ⟨⟨installed, w'⟩, hinstall, heq⟩
    obtain ⟨rfl, hversion⟩ := Prod.mk.inj heq
    refine ⟨c, hc, hpending, hhead, by decide +kernel, w', ?_, by rw [hversion]; decide⟩
    cases hresult : Store.installSnapshotAndAudit c.world (retainedIntent (wanted 0)) early third with
    | error e =>
      rw [hresult] at hinstall
      cases hinstall
    | ok p =>
      rw [hresult] at hinstall
      cases hinstall
      rfl
  · rcases exists_of_run hcurrent with ⟨c, hc, hvalue⟩
    simp only [Prod.mk.injEq, decide_eq_true_eq] at hvalue
    rcases hvalue with ⟨hpending, hhead, heventId, hhash, herror⟩
    refine ⟨c, hc, hpending, hhead, heventId, hhash, by decide +kernel, ?_⟩
    intro installed w' hcommit
    rw [hcommit] at herror
    cases herror

end RelayPoint.RouteProjection
