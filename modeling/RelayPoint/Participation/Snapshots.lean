import RelayPoint.Participation.Holding
import RelayPoint.Participation.Recovery

/-!
# Snapshots — installing what the authority offers in place of its history

When the authority no longer has the history that is asked for, `Apply` takes its snapshot: the fold
starts again from there, and the held command goes to the dead-letter queue, with an alert.
-/

namespace RelayPoint.Participation

open Concurrency

/-- The ledgers and the columns have room for the snapshot: it is above the head that the intent
observed, and its head event is new to the tenant. -/
structure World.Admits (w : World) (intent : Intent) (s : Snapshot) : Prop where
  above : intent.observedVersion < s.fold.version
  event : ∀ row ∈ w.events.rows, row.key.tenantId = intent.key.tenantId →
    row.eventId ≠ s.fold.identity.eventId
  version : fitsBigint s.fold.version = true
  provenance : fitsText s.provenance = true

theorem admits_iff {w : World} {intent : Intent} {s : Snapshot} :
    (intent.observedVersion < s.fold.version ∧ (∀ row ∈ w.events.rows,
      row.key.tenantId = intent.key.tenantId → row.eventId ≠ s.fold.identity.eventId) ∧
      fitsBigint s.fold.version = true ∧ fitsText s.provenance = true) ↔ w.Admits intent s :=
  ⟨fun h => ⟨h.1, h.2.1, h.2.2.1, h.2.2.2⟩, fun h => ⟨h.above, h.event, h.version, h.provenance⟩⟩

instance (w : World) (intent : Intent) (s : Snapshot) : Decidable (w.Admits intent s) :=
  decidable_of_iff _ admits_iff

structure Audited (w : World) (intent : Intent) (held : Record) (reason : Reason) : Prop where
  dlq : ⟨intent.key, nullIfEmpty intent.token, held.identity.eventId, held.version, held.identity.hash,
    reason, held.identity.body⟩ ∈ w.dlq.rows
  alert : ⟨intent.key, nullIfEmpty intent.token, held.identity.eventId, held.version, reason⟩ ∈ w.alerts.rows

/-- The reconcile of the intent is over: its row and that of its command are completed. -/
structure Finished (w : World) (intent : Intent) (held : Record) (status : IntentStatus)
    (result : InputStatus) : Prop where
  completed : intent.row status ∈ w.intents.rows
  noIntent : w.pendingIntent intent.key = none
  input : ∃ input ∈ w.pending.rows, input.key = intent.key ∧ input.eventId = held.identity.eventId ∧
    input.status = result
  noInput : w.pendingInput intent.key.tenantId held.identity.eventId = none

structure SnapshotInstalled (w : World) (intent : Intent) (s : Snapshot) (held : Record) : Prop where
  head : ∃ row, w.heads intent.key = some row ∧ row.version = s.fold.version ∧
    row.identity = some (s.fold.identity.eventId, s.fold.identity.hash) ∧ row.provenance = some s.provenance
  participants : w.participants intent.key = s.fold.participants
  audited : Audited w intent held .unknownStaleHistory
  finished : Finished w intent held .audited .dlq

/-! ## Rows after the end of a reconcile -/

section Finished

variable {w w' : World} {intent : Intent} {held : Record} {reason : Reason} {status : IntentStatus}
  {result : InputStatus} {attempts : Nat → Nat}

theorem Custody.unsettled (h : Custody w) (hstarted : Started w intent held) :
    ¬ w.settled intent.key held.identity.eventId := by
  rintro ⟨i, hi, hkey, heventId, hstatus⟩
  rcases h.input hstarted.issued hstarted.locked with ⟨own, hown, hheld⟩
  have hsame : i = own := w.pending.mem_eq_of_clash PendingInput.clash_symm hi hown
    (.inl ⟨congrArg Key.tenantId (hkey.trans hheld.key.symm), by
      rw [heventId, hheld.eventId, ← hstarted.held]
      rfl⟩)
  exact hstatus (hsame ▸ hheld.status)

theorem insertAudit_audited (hcustody : Custody w) (hstarted : Started w intent held)
    (hreason : reason ≠ .divergentHistory) (hdlq : w'.dlq = w.dlq) (halerts : w'.alerts = w.alerts)
    (hfits : fitsBigint held.version = true) :
    ∃ dlq alerts, insertAudit w' intent.key intent.token held reason = .ok { w' with dlq, alerts } ∧
      Audited { w' with dlq, alerts } intent held reason := by
  have hunsettled := hcustody.unsettled hstarted
  refine ⟨_, _, if_neg (by simp [hfits]), ?_, ?_⟩
  · refine Table.mem_insertOrIgnore_self ?_
    rintro row hrow ⟨hkey, heventId, hr⟩
    rw [hdlq] at hrow
    have hsettled := hcustody.audited row hrow (by rw [hr]; exact hreason)
    rw [hkey, heventId] at hsettled
    exact hunsettled hsettled
  · refine Table.mem_insertOrIgnore_self ?_
    rintro row hrow ⟨hkey, heventId, hr⟩
    rw [halerts] at hrow
    have hsettled := hcustody.alerted row hrow (by rw [hr]; exact hreason)
    rw [hkey, heventId] at hsettled
    exact hunsettled hsettled

theorem finished_finish (hcustody : Custody w) (hstarted : Started w intent held)
    (hstatus : status ≠ .pending) (hresult : result ≠ .pending) :
    Finished (w.finish intent status attempts result) intent held status result where
  completed := List.mem_map.2 ⟨_, hstarted.issued.pending hstarted.locked, if_pos ⟨rfl, rfl, rfl⟩⟩
  noIntent := by
    refine List.find?_eq_none.2 fun row hrow => ?_
    simp only [decide_eq_true_eq, not_and]
    intro hkey hpending
    rcases mem_intents_finish hstatus hrow hpending with ⟨hold, hother⟩
    -- Both rows would be the pending intent of the interaction.
    have hsame : row = intent.row .pending := w.intents.mem_eq_of_clash IntentRow.clash_symm hold
      (hstarted.issued.pending hstarted.locked) (.inr ⟨hkey, hpending, rfl⟩)
    exact hother ⟨congrArg Key.tenantId hkey, by rw [hsame]; rfl⟩
  input := by
    rcases hcustody.input hstarted.issued hstarted.locked with ⟨own, hown, hheld⟩
    have heventId : own.eventId = intent.held.eventId := hheld.eventId
    refine ⟨{ own with attempts := attempts own.attempts, status := result }, ?_, hheld.key,
      heventId.trans (congrArg Identity.eventId hstarted.held), rfl⟩
    exact List.mem_map.2 ⟨own, hown,
      if_pos ⟨congrArg Key.tenantId hheld.key, heventId, hheld.status⟩⟩
  noInput := by
    refine List.find?_eq_none.2 fun row hrow => ?_
    simp only [decide_eq_true_eq, not_and]
    intro htenant heventId hpending
    rcases List.mem_map.1 hrow with ⟨old, hold, rfl⟩
    split at hpending
    · exact hresult hpending
    · next hmatch =>
        rw [if_neg hmatch] at htenant heventId
        exact hmatch ⟨htenant, by rw [heventId, hstarted.held], hpending⟩

theorem Finished.congr (h : Finished w intent held status result) (hintents : w'.intents = w.intents)
    (hpending : w'.pending = w.pending) : Finished w' intent held status result where
  completed := by simpa only [hintents] using h.completed
  noIntent := by simpa only [World.pendingIntent, hintents] using h.noIntent
  input := by simpa only [hpending] using h.input
  noInput := by simpa only [World.pendingInput, hpending] using h.noInput

end Finished

/-! ## The install -/

section Install

variable {w : World} {intent : Intent} {held : Record} {s : Snapshot}

theorem insertLedgerRows_snapshot (hbounded : Bounded w) (hlock : w.lockIntent intent = true)
    (hadmits : w.Admits intent s) :
    ∃ w', insertLedgerRows (w.lockHead intent.key) intent.key s.fold.version s.fold.identity.eventId
      s.fold.identity.hash none = .ok w' := by
  have hhead := Store.head_of_lockIntent hlock
  have habove := hadmits.above
  have hstill := still_lockHead w intent.key
  have hversions : ∀ row ∈ (w.lockHead intent.key).versions.rows, ¬ VersionRow.Clash row
      ⟨intent.key, s.fold.version, s.fold.identity.eventId, s.fold.identity.hash, none⟩ := by
    rintro row hrow ⟨hkey, hversion⟩
    have hversion : row.version = s.fold.version := hversion
    have hle := hbounded.versions row (hstill.versions ▸ hrow)
    rw [hkey, hhead] at hle
    omega
  have hevents : ∀ row ∈ (w.lockHead intent.key).events.rows, ¬ EventRow.Clash row
      ⟨intent.key, s.fold.identity.eventId, s.fold.version, s.fold.identity.hash⟩ := by
    rintro row hrow (⟨htenant, heventId⟩ | ⟨hkey, hversion⟩)
    · exact hadmits.event row (hstill.events ▸ hrow) htenant heventId
    · have hversion : row.version = s.fold.version := hversion
      have hle := hbounded.events row (hstill.events ▸ hrow)
      rw [hkey, hhead] at hle
      omega
  rcases Table.insert_of_free hversions with ⟨versions, hv, _⟩
  rcases Table.insert_of_free hevents with ⟨events, he, _⟩
  refine ⟨{ w.lockHead intent.key with versions, events }, ?_⟩
  have hcolumns : ¬ (s.fold.version = 0 ∨ ¬ fitsBigint s.fold.version = true) := by
    simp only [hadmits.version, not_true_eq_false, or_false]
    omega
  simp only [insertLedgerRows, hcolumns, if_false, hv, he]

theorem Store.installSnapshot_total (hinv : custody.Inv w) (hstarted : Started w intent held)
    (hsnap : Snapshotted intent held s) (hadmits : w.Admits intent s) :
    ∃ w', Store.installSnapshot w intent s held = .ok (true, w') ∧
      SnapshotInstalled w' intent s held := by
  have habove := hadmits.above
  rcases insertLedgerRows_snapshot hinv.1 hstarted.locked hadmits with ⟨w₁, hledgers⟩
  have hrow : ∃ row, headRow s.fold.version s.fold.identity (some s.provenance) = some row ∧
      row.version = s.fold.version ∧
      row.identity = some (s.fold.identity.eventId, s.fold.identity.hash) ∧
      row.provenance = some s.provenance :=
    ⟨_, dif_pos ⟨by omega, hadmits.version, hadmits.provenance⟩, rfl, rfl, rfl⟩
  rcases hrow with ⟨row, hrow, hversion, hidentity, hprovenance⟩
  have hset : (w₁.setHead intent.key row).heads intent.key = some row := by
    have hsome := isSome_lockHead w intent.key
    rcases (insertLedgerRows_ok hledgers).1 with ⟨versions, events, rfl⟩
    rcases Option.isSome_iff_exists.1 hsome with ⟨old, hold⟩
    simp [World.setHead, hold]
  have hleaves : Leaves w (w₁.setHead intent.key row) := ((leaves_lockHead w intent.key).trans
    (leaves_insertLedgerRows hledgers)).trans (leaves_setHead w₁ intent.key row)
  -- The held command is not above the snapshot, so its version fits its column as well.
  have hfits : fitsBigint held.version = true := by
    have hle := hsnap.held
    have hlt : s.fold.version < 2 ^ 63 := by simpa [fitsBigint] using hadmits.version
    simp only [fitsBigint, decide_eq_true_eq]
    omega
  rcases insertAudit_audited hinv.2 hstarted (by decide : Reason.unknownStaleHistory ≠ .divergentHistory)
    hleaves.dlq hleaves.alerts hfits with ⟨dlq, alerts, haudit, hrows⟩
  refine ⟨{ ({ w₁.setHead intent.key row with dlq, alerts } : World).completeReconcile intent .audited .dlq with
    participants := Function.update (w₁.setHead intent.key row).participants intent.key s.fold.participants
    base := Function.update (w₁.setHead intent.key row).base intent.key (some s) }, ?_, ?_⟩
  · simp only [Store.installSnapshot, hstarted.locked, not_true_eq_false, if_false, hledgers, hrow, haudit]
  · rcases hleaves.finish intent .audited id .dlq with ⟨hpending, hintents⟩
    have hfinished : Finished (w.finish intent .audited id .dlq) intent held .audited .dlq :=
      finished_finish hinv.2 hstarted (by decide) (by decide)
    exact ⟨⟨row, hset, hversion, hidentity, hprovenance⟩, Function.update_self _ _ _,
      ⟨hrows.dlq, hrows.alert⟩, hfinished.congr hintents hpending⟩

end Install

theorem custody_applyCall {ok : World → Op → Choice → Prop} {w : World}
    (call : Principal × ParticipationCommand) :
    Ensures machine ok custody (fun _ _ => True) (applyCall call) w := by
  unfold applyCall apply
  split
  · exact ensures_pure trivial
  · split
    · exact ensures_pure trivial
    · exact custody_applyRecord

theorem reachable_custody {c : Config Ans (Principal × ParticipationCommand) World Outcome}
    (hreach : Reachable machine applyCall anything World.empty c) : custody.Inv c.world := by
  have hsound : Sound machine anything custody (fun _ _ _ _ => True) c :=
    hreach.sound id (fun call _ _ _ => custody_applyCall call) (fun _ t => nomatch t) custody_empty
  exact hsound.1

/-- In every reachable state: if a reconcile is under way and the head is where its intent saw it, then
a snapshot that `validateSnapshot` accepts and that the tables admit is installed. -/
theorem snapshot_installed {c : Config Ans (Principal × ParticipationCommand) World Outcome}
    (hreach : Reachable machine applyCall anything World.empty c) {intent : Intent} {held : Record}
    (hstarted : Started c.world intent held) {wire : Option SnapshotResponse} {s : Snapshot}
    (hval : validateSnapshot wire intent held = .ok s) (hadmits : c.world.Admits intent s) :
    ∃ w', Store.installSnapshot c.world intent s held = .ok (true, w') ∧
      SnapshotInstalled w' intent s held :=
  Store.installSnapshot_total (reachable_custody hreach) hstarted (validateSnapshot_ok hval) hadmits

namespace Scenario

def offer : SnapshotResponse :=
  ⟨tenant, interaction, 5, "018f4000-0000-7000-8000-000000000015", List.replicate 32 0, [alice], 1, "snapshot"⟩

def offered : Snapshot where
  fold := ⟨tenant, interaction, 5, ⟨offer.headEventId, ⟨offer.headHash, by decide⟩, []⟩, {alice}, "snapshot"⟩
  historyFloor := 1
  provenance := "snapshot"

def forgotten : List Choice :=
  [.replayed (.error [.unknownHistory]), .snapshotted (.ok (some offer))]

def thirdForgotten : Schedule :=
  [apply third] ++ acts 0 ([.go, .go, .id token, .go] ++ forgotten)

/-- After that the second command arrives, which is below the snapshot, and the authority repeats
itself. -/
def secondForgotten : Schedule :=
  thirdForgotten ++ [.act 0 .go, apply second] ++
    acts 1 ([.go, .go, .go, .id token₂, .go] ++ forgotten)

theorem wellFormed_secondHeld : wellFormed second = true := by
  decide +kernel

def secondHeld : Record :=
  ⟨second, wellFormed_secondHeld⟩

def thirdIntent : Intent :=
  ⟨token, key, 0, 1, 3, thirdRecord.identity⟩

def secondIntent : Intent :=
  ⟨token₂, key, 5, 2, 2, secondHeld.identity⟩

theorem offer_accepted : validateSnapshot (some offer) thirdIntent thirdRecord = .ok offered ∧
    validateSnapshot (some offer) secondIntent secondHeld = .ok offered := by
  decide +kernel

end Scenario

open Scenario in
theorem snapshot_installed_thirdForgotten :
    ∃ c : Config Ans (Principal × ParticipationCommand) World Outcome,
      Reachable machine applyCall anything World.empty c ∧ Started c.world thirdIntent thirdRecord ∧
        c.world.Admits thirdIntent offered ∧
        ∃ w', Store.installSnapshot c.world thirdIntent offered thirdRecord = .ok (true, w') ∧
          SnapshotInstalled w' thirdIntent offered thirdRecord := by
  have hrun : (run machine applyCall anything thirdForgotten ⟨World.empty, []⟩).map
      (fun c => (c.world.headVersion key, decide (thirdIntent.row .pending ∈ c.world.intents.rows),
        decide (c.world.Admits thirdIntent offered))) = some (0, true, true) := by
    decide +kernel
  rcases exists_of_run hrun with ⟨c, hc, hvalue⟩
  simp only [Prod.mk.injEq, decide_eq_true_eq] at hvalue
  rcases hvalue with ⟨hhead, hrow, hadmits⟩
  have hstarted : Started c.world thirdIntent thirdRecord :=
    ⟨⟨_, hrow⟩, lockIntent_of_mem hhead hrow, rfl, rfl⟩
  exact ⟨c, hc, hstarted, hadmits, snapshot_installed hc hstarted offer_accepted.1 hadmits⟩

open Scenario in
/-- The snapshot is accepted and its head event is that of the head, but the ledgers refuse it. -/
theorem snapshot_of_head_refused :
    ∃ c : Config Ans (Principal × ParticipationCommand) World Outcome,
      Reachable machine applyCall anything World.empty c ∧ Started c.world secondIntent secondHeld ∧
        validateSnapshot (some offer) secondIntent secondHeld = .ok offered ∧
        ((c.world.heads key).bind HeadRow.identity) =
          some (offered.fold.identity.eventId, offered.fold.identity.hash) ∧
        ∀ installed w', Store.installSnapshot c.world secondIntent offered secondHeld ≠
          .ok (installed, w') := by
  have hrun : (run machine applyCall anything secondForgotten ⟨World.empty, []⟩).map
      (fun c => (c.world.headVersion key, decide (secondIntent.row .pending ∈ c.world.intents.rows),
        decide ((c.world.heads key).bind HeadRow.identity =
          some (offered.fold.identity.eventId, offered.fold.identity.hash)),
        (Store.installSnapshot c.world secondIntent offered secondHeld).isOk)) =
        some (5, true, true, false) := by
    decide +kernel
  rcases exists_of_run hrun with ⟨c, hc, hvalue⟩
  simp only [Prod.mk.injEq, decide_eq_true_eq] at hvalue
  rcases hvalue with ⟨hhead, hrow, hidentity, herror⟩
  refine ⟨c, hc, ⟨⟨_, hrow⟩, lockIntent_of_mem hhead hrow, rfl, rfl⟩, offer_accepted.2, hidentity, ?_⟩
  intro installed w' hcommit
  rw [hcommit] at herror
  cases herror

end RelayPoint.Participation
