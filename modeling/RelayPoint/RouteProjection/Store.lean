import RelayPoint.Delivery.Store
import RelayPoint.RouteProjection.Fact

/-!
# Store — the tables of the route projection and the transactions on them

The database of accepted deliveries also holds the route projection: one head per interaction, a
ledger of versions and one of event ids, the intents of running reconciliations, and what was set
aside for audit.  The methods of the Postgres store are functions from the tables before a
transaction to those after it; an error rolls the transaction back and carries no tables.

`installed` is a history variable: no transaction reads it.
-/

namespace RelayPoint.RouteProjection

open Participation (Key Digest EventRow IntentRow IntentStatus fitsBigint fitsText nullIfEmpty isUuidv7)
open UuidText (uuidIn uuidIn_idem)

/-! ## Columns -/

/-- A value of a `uuid` column with the check on its version, as its canonical text. -/
abbrev UuidValue := { s : String // uuidIn s = some s ∧ s.toList[14]? = some '7' }

def uuidColumn (s : String) : Option (Option UuidValue) :=
  if s = "" then some none
  else
    match h : uuidIn s with
    | none => none
    | some t =>
      if hversion : t.toList[14]? = some '7' then some (some ⟨t, uuidIn_idem h, hversion⟩)
      else none

def uuidText : Option UuidValue → String
  | none => ""
  | some v => v.1

theorem uuidColumn_uuidText (v : Option UuidValue) : uuidColumn (uuidText v) = some v := by
  cases v with
  | none => rfl
  | some v =>
    rcases v with ⟨s, hs, hversion⟩
    have hne : s ≠ "" := by
      rintro rfl
      exact absurd hs (by decide)
    simp only [uuidColumn, uuidText, hne, if_false]
    split
    · next h =>
        rw [hs] at h
        cases h
    · next t h =>
        obtain rfl : s = t := Option.some.inj (hs.symm.trans h)
        simp [hversion]

theorem uuidColumn_of_isUuidv7 {s : String} (h : isUuidv7 s = true) :
    ∃ v : UuidValue, uuidColumn s = some (some v) ∧ v.1 = s := by
  rcases uuidIn_of_isUuidv7 h with ⟨hs, hversion⟩
  exact ⟨⟨s, hs, hversion⟩, uuidColumn_uuidText (some ⟨s, hs, hversion⟩), rfl⟩

def nullableTime (t : Int) : Option Int :=
  if t = 0 then none else some (t / 1000)

def timeOf : Option Int → Int
  | none => 0
  | some micros => micros * 1000

def jsonTime (t : Int) : Bool :=
  -31622400 * 1000000000 ≤ t && t < 315537897600 * 1000000000

/-! ## Tables -/

structure HeadRow where
  version : Nat
  eventId : Option String
  hash : Option Digest
  visible : Bool
  deliveryAuthorizationId : Option UuidValue
  receiptId : Option UuidValue
  visibilityGeneration : Nat
  leaseUntil : Option Int
  bounds : fitsBigint version = true ∧ fitsBigint visibilityGeneration = true

def HeadRow.initial : HeadRow :=
  ⟨0, none, none, false, none, none, 0, none, by decide⟩

inductive Installed where
  | fact (f : RouteFact)
  | snapshot (s : Snapshot)
  deriving DecidableEq

structure VersionRow where
  key : Key
  version : Nat
  eventId : String
  hash : Digest
  body : Installed
  deriving DecidableEq

def VersionRow.Clash (r s : VersionRow) : Prop :=
  r.key = s.key ∧ r.version = s.version
  deriving Decidable

inductive Reason where
  | divergentHistory
  | unknownStaleHistory
  deriving DecidableEq, Repr

structure DlqRow where
  key : Key
  reconcileToken : Option String
  eventId : String
  version : Nat
  hash : Digest
  reason : Reason
  body : RouteFact
  deriving DecidableEq

def DlqRow.Clash (r s : DlqRow) : Prop :=
  r.key = s.key ∧ r.eventId = s.eventId ∧ r.reason = s.reason
  deriving Decidable

structure AlertRow where
  key : Key
  reconcileToken : String
  snapshot : Snapshot
  held : RouteFact
  deriving DecidableEq

def AlertRow.Clash (r s : AlertRow) : Prop :=
  r.key.tenantId = s.key.tenantId ∧ r.reconcileToken = s.reconcileToken
  deriving Decidable

structure World where
  delivery : Delivery.Tables
  now : Int
  heads : Key → Option HeadRow
  versions : Table VersionRow VersionRow.Clash
  events : Table EventRow EventRow.Clash
  intents : Table IntentRow IntentRow.Clash
  dlq : Table DlqRow DlqRow.Clash
  alerts : Table AlertRow AlertRow.Clash
  installed : Key → List Installed

def World.empty (now : Int) : World where
  delivery := .empty
  now := now
  heads := fun _ => none
  versions := .empty
  events := .empty
  intents := .empty
  dlq := .empty
  alerts := .empty
  installed := fun _ => []

namespace World

def headVersion (w : World) (key : Key) : Nat :=
  match w.heads key with
  | none => 0
  | some row => row.version

def ensureProjectionHead (w : World) (key : Key) : World :=
  match w.heads key with
  | none => { w with heads := Function.update w.heads key (some HeadRow.initial) }
  | some _ => w

def setHead (w : World) (key : Key) (row : HeadRow) (items : List Installed) : World :=
  { w with
    heads := Function.update w.heads key (some row)
    installed := Function.update w.installed key (w.installed key ++ items) }

end World

def headRow (s : FoldedState) : Option HeadRow :=
  if h : fitsBigint s.version = true ∧ fitsBigint s.visibilityGeneration = true then
    match uuidColumn s.deliveryAuthorizationId, uuidColumn s.receiptId with
    | some deliveryAuthorizationId, some receiptId =>
      some ⟨s.version, some s.eventId, some s.hash, s.visibility = .visible,
        deliveryAuthorizationId, receiptId, s.visibilityGeneration, nullableTime s.leaseUntil, h⟩
    | _, _ => none
  else none

/-! ## Ledgers -/

def insertLedgerRows (w : World) (row : VersionRow) : Except Err World :=
  if row.version = 0 ∨ ¬ fitsBigint row.version then .error []
  else
    match w.versions.insert row with
    | none => .error []
    | some versions =>
      match w.events.insert ⟨row.key, row.eventId, row.version, row.hash⟩ with
      | none => .error []
      | some events => .ok { w with versions := versions, events := events }

def VersionRow.of (f : RouteFact) : VersionRow :=
  ⟨f.key, f.version, f.eventId, hashRouteFact f, .fact f⟩

def insertFactLedgers (w : World) (f : RouteFact) : Except Err World :=
  if ¬ jsonTime f.leaseUntil then .error [] else insertLedgerRows w (.of f)

def insertFacts : World → List RouteFact → Except Err World
  | w, [] => .ok w
  | w, f :: fs =>
    match insertFactLedgers w f with
    | .error e => .error e
    | .ok w' => insertFacts w' fs

/-! ## Intents -/

namespace World

def pendingIntent (w : World) (key : Key) : Option IntentRow :=
  w.intents.rows.find? fun r => r.key = key ∧ r.status = .pending

def pendingIntentMatches (w : World) (key : Key) (token : String) (observed : Nat) : Bool :=
  w.intents.rows.any fun r => r.key = key && r.token = token && r.observedVersion = observed &&
    r.status = .pending

def completeIntent (w : World) (tenantId token : String) (status : IntentStatus) : World :=
  { w with
    intents := w.intents.update
      (fun r =>
        if r.key.tenantId = tenantId ∧ r.token = token ∧ r.status = .pending then
          { r with status := status }
        else r)
      (IntentRow.clash_of_complete tenantId token status) }

def lockIntent (w : World) (intent : ReconcileIntent) : Bool :=
  w.headVersion intent.key = intent.observedVersion &&
    w.pendingIntentMatches intent.key intent.token intent.observedVersion

end World

def ReconcileIntent.row (intent : ReconcileIntent) : IntentRow :=
  ⟨intent.token, intent.key, intent.observedVersion, intent.requestedFrom, intent.requestedTo,
    intent.heldEventId, intent.heldHash, .pending⟩

def retainedIntent (row : IntentRow) : ReconcileIntent :=
  ⟨row.token, row.key, row.observedVersion, row.requestedFrom, row.requestedTo, row.heldEventId,
    row.heldHash⟩

/-! ## The methods of the store -/

namespace Store

def authorization (w : World) (tenantId authorizationId : String) :
    Except Err (Option (String × String)) :=
  match uuidIn tenantId, uuidIn authorizationId with
  | some tenantId, some authorizationId =>
    .ok ((w.delivery.authorization ⟨tenantId, authorizationId⟩).map fun r =>
      (r.interactionId, r.receiptId))
  | _, _ => .error []

def installFacts (w : World) (key : Key) (facts : List RouteFact) (final : FoldedState) :
    Except Err World :=
  match insertFacts (w.ensureProjectionHead key) facts with
  | .error e => .error e
  | .ok w' =>
    match headRow final with
    | none => .error []
    | some row => .ok (w'.setHead key row (facts.map .fact))

def installBatch (w : World) (expected : Nat) (facts : List RouteFact) (final : FoldedState) :
    Except Err (Bool × World) :=
  match facts with
  | [] => .error [.invalidReplay]
  | f :: _ =>
    if w.headVersion f.key ≠ expected then .ok (false, w.ensureProjectionHead f.key)
    else
      match installFacts w f.key facts final with
      | .error e => .error e
      | .ok w' => .ok (true, w')

def installReconcileBatch (w : World) (intent : ReconcileIntent) (facts : List RouteFact)
    (final : FoldedState) : Except Err (Bool × World) :=
  if facts = [] then .error [.invalidReplay]
  else if ¬ w.lockIntent intent then .ok (false, w.ensureProjectionHead intent.key)
  else
    match installFacts w intent.key facts final with
    | .error e => .error e
    | .ok w' => .ok (true, w'.completeIntent intent.key.tenantId intent.token .installed)

def beginReconcile (w : World) (proposed : ReconcileIntent) :
    Except Err ((ReconcileIntent × Bool) × World) :=
  if w.headVersion proposed.key ≠ proposed.observedVersion then
    .ok ((proposed, false), w.ensureProjectionHead proposed.key)
  else
    match w.pendingIntent proposed.key with
    | some row =>
      .ok ((retainedIntent row, row.observedVersion = proposed.observedVersion &&
        row.requestedFrom = proposed.requestedFrom && row.requestedTo = proposed.requestedTo &&
        row.heldEventId = proposed.heldEventId && row.heldHash = proposed.heldHash),
        w.ensureProjectionHead proposed.key)
    | none =>
      if proposed.requestedFrom = 0 ∨ proposed.requestedTo < proposed.requestedFrom ∨
          ¬ fitsBigint proposed.requestedTo then .error []
      else
        match w.intents.insert proposed.row with
        | none => .error []
        | some intents =>
          .ok ((proposed, true), { w.ensureProjectionHead proposed.key with intents := intents })

def installHistoricalIdentity (w : World) (intent : ReconcileIntent) (f : RouteFact) :
    Except Err (Bool × World) :=
  if ¬ w.lockIntent intent then .ok (false, w.ensureProjectionHead intent.key)
  else
    match insertFactLedgers (w.ensureProjectionHead intent.key) f with
    | .error e => .error e
    | .ok w' => .ok (true, w'.completeIntent intent.key.tenantId intent.token .installed)

def insertAudit (w : World) (intent : ReconcileIntent) (s : Snapshot) (held : RouteFact) :
    Except Err World :=
  if ¬ jsonTime held.leaseUntil ∨ held.version = 0 ∨ ¬ fitsBigint held.version then .error []
  else
    .ok { w with
      dlq := w.dlq.insertOrIgnore ⟨intent.key, some intent.token, held.eventId, held.version,
        hashRouteFact held, .unknownStaleHistory, held⟩
      alerts := w.alerts.insertOrIgnore ⟨intent.key, intent.token, s, held⟩ }

def installSnapshotAndAudit (w : World) (intent : ReconcileIntent) (s : Snapshot)
    (held : RouteFact) : Except Err (Bool × World) :=
  if ¬ w.lockIntent intent then .ok (false, w.ensureProjectionHead intent.key)
  else
    match headRow s.projection.state with
    | none => .error []
    | some row =>
      if ¬ fitsText s.provenance ∨ ¬ jsonTime s.projection.state.leaseUntil ∨
          ¬ jsonTime s.projection.databaseNow then .error []
      else
        match insertLedgerRows
            ((w.ensureProjectionHead intent.key).setHead intent.key row [.snapshot s])
            ⟨intent.key, s.projection.version, s.projection.state.eventId,
              s.projection.state.hash, .snapshot s⟩ with
        | .error e => .error e
        | .ok w₁ =>
          match insertAudit w₁ intent s held with
          | .error e => .error e
          | .ok w₂ => .ok (true, w₂.completeIntent intent.key.tenantId intent.token .audited)

def recordPoison (w : World) (f : RouteFact) : Except Err (Unit × World) :=
  if ¬ jsonTime f.leaseUntil ∨ f.version = 0 ∨ ¬ fitsBigint f.version then .error []
  else
    .ok ((), { w with
      dlq := w.dlq.insertOrIgnore ⟨f.key, none, f.eventId, f.version, hashRouteFact f,
        .divergentHistory, f⟩ })

end Store

end RelayPoint.RouteProjection
