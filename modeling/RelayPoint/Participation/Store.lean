import RelayPoint.Data.Table
import RelayPoint.Participation.Command

/-!
# Store — the participation tables and the transactions on them

The tables of the schema, with the columns that the code reads or that identify a row, and the
methods of the Postgres store as functions from the tables before a transaction to those after it.
A transaction that returns an error is rolled back, so an error carries no tables.

`base` and `installs` are history variables: no transaction reads them.
-/

namespace RelayPoint.Participation

open Wire

/-! ## Tables -/

/-- The check constraint of the table: a head has an identity exactly when its version is not 0. -/
structure HeadRow where
  version : Nat
  identity : Option (String × Digest)
  provenance : Option String
  check : version = 0 ↔ identity = none

def HeadRow.initial : HeadRow :=
  ⟨0, none, none, by simp⟩

structure VersionRow where
  key : Key
  version : Nat
  eventId : String
  hash : Digest
  body : Option Bytes
  deriving DecidableEq

def VersionRow.Clash (r s : VersionRow) : Prop :=
  r.key = s.key ∧ r.version = s.version
  deriving Decidable

structure EventRow where
  key : Key
  eventId : String
  version : Nat
  hash : Digest
  deriving DecidableEq

def EventRow.Clash (r s : EventRow) : Prop :=
  (r.key.tenantId = s.key.tenantId ∧ r.eventId = s.eventId) ∨ (r.key = s.key ∧ r.version = s.version)
  deriving Decidable

inductive InputStatus where
  | pending
  | installed
  | dlq
  deriving DecidableEq, Repr

structure PendingInput where
  key : Key
  eventId : String
  version : Nat
  hash : Digest
  body : Bytes
  attempts : Nat
  status : InputStatus
  deriving DecidableEq

def PendingInput.Clash (r s : PendingInput) : Prop :=
  (r.key.tenantId = s.key.tenantId ∧ r.eventId = s.eventId) ∨ (r.key = s.key ∧ r.version = s.version)
  deriving Decidable

inductive IntentStatus where
  | pending
  | installed
  | audited
  deriving DecidableEq, Repr

structure IntentRow where
  token : String
  key : Key
  observedVersion : Nat
  requestedFrom : Nat
  requestedTo : Nat
  heldEventId : String
  heldHash : Digest
  status : IntentStatus
  deriving DecidableEq

def IntentRow.Clash (r s : IntentRow) : Prop :=
  (r.key.tenantId = s.key.tenantId ∧ r.token = s.token) ∨
    (r.key = s.key ∧ r.status = .pending ∧ s.status = .pending)
  deriving Decidable

inductive Reason where
  | divergentHistory
  | unknownStaleHistory
  | reconcileExhausted
  deriving DecidableEq, Repr

structure DlqRow where
  key : Key
  reconcileToken : Option String
  eventId : String
  version : Nat
  hash : Digest
  reason : Reason
  body : Bytes
  deriving DecidableEq

def DlqRow.Clash (r s : DlqRow) : Prop :=
  r.key = s.key ∧ r.eventId = s.eventId ∧ r.reason = s.reason
  deriving Decidable

structure AlertRow where
  key : Key
  reconcileToken : Option String
  eventId : String
  version : Nat
  reason : Reason
  deriving DecidableEq

def AlertRow.Clash (r s : AlertRow) : Prop :=
  r.key = s.key ∧ r.eventId = s.eventId ∧ r.reason = s.reason
  deriving Decidable

theorem IntentRow.clash_of_complete (tenantId token : String) (status : IntentStatus)
    (r s : IntentRow) (h : Clash
      (if r.key.tenantId = tenantId ∧ r.token = token ∧ r.status = .pending then
        { r with status := status } else r)
      (if s.key.tenantId = tenantId ∧ s.token = token ∧ s.status = .pending then
        { s with status := status } else s)) : Clash r s := by
  unfold Clash at h ⊢
  split_ifs at h <;> grind

theorem IntentRow.clash_symm {r s : IntentRow} (h : IntentRow.Clash r s) : IntentRow.Clash s r := by
  rcases h with ⟨htenant, htoken⟩ | ⟨hkey, hr, hs⟩
  · exact .inl ⟨htenant.symm, htoken.symm⟩
  · exact .inr ⟨hkey.symm, hs, hr⟩

structure World where
  heads : Key → Option HeadRow
  participants : Key → Finset String
  versions : Table VersionRow VersionRow.Clash
  events : Table EventRow EventRow.Clash
  pending : Table PendingInput PendingInput.Clash
  intents : Table IntentRow IntentRow.Clash
  dlq : Table DlqRow DlqRow.Clash
  alerts : Table AlertRow AlertRow.Clash
  base : Key → Option Snapshot
  /-- History: the fold of each committed install, and the participants stored when it committed. -/
  installs : List (Fold × Finset String)

def World.empty : World where
  heads := fun _ => none
  participants := fun _ => ∅
  versions := .empty
  events := .empty
  pending := .empty
  intents := .empty
  dlq := .empty
  alerts := .empty
  base := fun _ => none
  installs := []

/-! ## Heads -/

namespace World

def headVersion (w : World) (key : Key) : Nat :=
  match w.heads key with
  | none => 0
  | some row => row.version

def lockHead (w : World) (key : Key) : World :=
  match w.heads key with
  | none => { w with heads := Function.update w.heads key (some HeadRow.initial) }
  | some _ => w

def setHead (w : World) (key : Key) (row : HeadRow) : World :=
  match w.heads key with
  | none => w
  | some _ => { w with heads := Function.update w.heads key (some row) }

/-- The state that the participants were folded from: the last snapshot, or nothing. -/
def checkpoint (w : World) (key : Key) : Journal.Checkpoint (Finset String) :=
  match w.base key with
  | none => ⟨0, ∅⟩
  | some s => ⟨s.fold.version, s.fold.participants⟩

end World

def fitsBigint (n : Nat) : Bool :=
  n < 2 ^ 63

def fitsText (s : String) : Bool :=
  ! s.toList.contains (Char.ofNat 0)

def headRow (version : Nat) (identity : Identity) (provenance : Option String) : Option HeadRow :=
  if h : 0 < version ∧ fitsBigint version ∧ provenance.all fitsText then
    some ⟨version, some (identity.eventId, identity.hash), provenance, by
      simp [Nat.pos_iff_ne_zero.1 h.1]⟩
  else none

/-! ## Ledgers -/

def insertLedgerRows (w : World) (key : Key) (version : Nat) (eventId : String) (hash : Digest)
    (body : Option Bytes) : Except Err World :=
  if version = 0 ∨ ¬ fitsBigint version then .error []
  else
    match w.versions.insert ⟨key, version, eventId, hash, body⟩ with
    | none => .error []
    | some versions =>
      match w.events.insert ⟨key, eventId, version, hash⟩ with
      | none => .error []
      | some events => .ok { w with versions := versions, events := events }

def insertLedgers (w : World) (r : Record) : Except Err World :=
  insertLedgerRows w r.key r.version r.identity.eventId r.identity.hash (some r.identity.body)

def World.upsertParticipant (w : World) (key : Key) (participantId : String) : World :=
  { w with participants :=
      Function.update w.participants key (insert participantId (w.participants key)) }

def World.deleteParticipant (w : World) (key : Key) (participantId : String) : World :=
  { w with participants :=
      Function.update w.participants key ((w.participants key).erase participantId) }

def installRecord (w : World) (r : Record) : Except Err World :=
  match insertLedgers w r with
  | .error e => .error e
  | .ok w' =>
    if r.command.desiredState = .assigned then
      .ok (w'.upsertParticipant r.key r.command.participantId)
    else .ok (w'.deleteParticipant r.key r.command.participantId)

def installEach : World → List Record → Except Err World
  | w, [] => .ok w
  | w, r :: rs =>
    match installRecord w r with
    | .error e => .error e
    | .ok w' => installEach w' rs

def installRecords (w : World) (records : List Record) (final : Fold) : Except Err World :=
  match installEach w records with
  | .error e => .error e
  | .ok w' =>
    match headRow final.version final.identity none with
    | none => .error []
    | some row => .ok { w'.setHead final.key row with
        installs := w'.installs ++ [(final, w'.participants final.key)] }

/-! ## Intents and pending inputs -/

namespace World

def pendingIntent (w : World) (key : Key) : Option IntentRow :=
  w.intents.rows.find? fun r => r.key = key ∧ r.status = .pending

/-- `lockIntentAndHead`: the head is where the intent saw it, and the intent is still pending. -/
def lockIntent (w : World) (intent : Intent) : Bool :=
  w.headVersion intent.key = intent.observedVersion &&
    w.intents.rows.any fun r => r.key = intent.key && r.token = intent.token &&
      r.observedVersion = intent.observedVersion && r.status = .pending

def pendingInput (w : World) (tenantId eventId : String) : Option PendingInput :=
  w.pending.rows.find? fun r => r.key.tenantId = tenantId ∧ r.eventId = eventId ∧ r.status = .pending

def completeIntent (w : World) (intent : Intent) (status : IntentStatus) : World :=
  { w with
    intents := w.intents.update
      (fun r =>
        if r.key.tenantId = intent.key.tenantId ∧ r.token = intent.token ∧ r.status = .pending then
          { r with status := status }
        else r)
      (IntentRow.clash_of_complete intent.key.tenantId intent.token status) }

def setInput (w : World) (tenantId eventId : String) (attempts : Nat → Nat) (status : InputStatus) :
    World :=
  { w with
    pending := w.pending.update
      (fun r =>
        if r.key.tenantId = tenantId ∧ r.eventId = eventId ∧ r.status = .pending then
          { r with attempts := attempts r.attempts, status := status }
        else r)
      (by
        intro r s h
        unfold PendingInput.Clash at h ⊢
        split_ifs at h <;> exact h) }

def completeReconcile (w : World) (intent : Intent) (status : IntentStatus) (input : InputStatus) :
    World :=
  (w.completeIntent intent status).setInput intent.key.tenantId intent.held.eventId id input

end World

/-! ## Audit -/

def nullIfEmpty (s : String) : Option String :=
  if s = "" then none else some s

def insertAudit (w : World) (key : Key) (token : String) (r : Record) (reason : Reason) :
    Except Err World :=
  if ¬ fitsBigint r.version then .error []
  else
    .ok { w with
      dlq := w.dlq.insertOrIgnore ⟨key, nullIfEmpty token, r.identity.eventId, r.version,
        r.identity.hash, reason, r.identity.body⟩
      alerts := w.alerts.insertOrIgnore ⟨key, nullIfEmpty token, r.identity.eventId, r.version,
        reason⟩ }

/-! ## The methods of the store -/

def PendingInput.of (intent : Intent) (held : Record) : PendingInput :=
  ⟨intent.key, held.identity.eventId, held.version, held.identity.hash, held.identity.body, 0,
    .pending⟩

def IntentRow.of (intent : Intent) (held : Record) : IntentRow :=
  ⟨intent.token, intent.key, intent.observedVersion, intent.requestedFrom, intent.requestedTo,
    held.identity.eventId, held.identity.hash, .pending⟩

def Intent.resume (intent : Intent) (row : IntentRow) : Intent :=
  { intent with token := row.token, observedVersion := row.observedVersion,
                requestedFrom := row.requestedFrom, requestedTo := row.requestedTo }

namespace Store

def install (w : World) (expected : Nat) (records : List Record) (final : Fold) :
    Except Err (Bool × World) :=
  if w.headVersion final.key ≠ expected then .ok (false, w.lockHead final.key)
  else
    match installRecords (w.lockHead final.key) records final with
    | .error e => .error e
    | .ok w' => .ok (true, w')

def beginReconcile (w : World) (intent : Intent) (held : Record) :
    Except Err ((Intent × Bool) × World) :=
  if w.headVersion intent.key ≠ intent.observedVersion then
    .ok ((intent, false), w.lockHead intent.key)
  else
    match w.pendingIntent intent.key with
    | some row =>
      if row.observedVersion ≠ intent.observedVersion ∨ row.heldEventId ≠ held.identity.eventId ∨
          row.heldHash ≠ held.identity.hash then .error [.divergentHistory]
      else .ok ((intent.resume row, true), w.lockHead intent.key)
    | none =>
      if ¬ fitsBigint held.version then .error []
      else
        match w.pending.insert (.of intent held) with
        | none => .ok ((intent, false), w.lockHead intent.key)
        | some pending =>
          if intent.requestedFrom = 0 ∨ intent.requestedTo < intent.requestedFrom ∨
              ¬ fitsBigint intent.requestedTo then .error []
          else
            match w.intents.insert (.of intent held) with
            -- The pending input stays behind without an intent.
            | none => .ok ((intent, false), { w.lockHead intent.key with pending := pending })
            | some intents =>
              .ok ((intent, true),
                { w.lockHead intent.key with pending := pending, intents := intents })

def installReconcile (w : World) (intent : Intent) (records : List Record) (final : Fold) :
    Except Err (Bool × World) :=
  if ¬ w.lockIntent intent then .ok (false, w.lockHead intent.key)
  else
    match installRecords (w.lockHead intent.key) records final with
    | .error e => .error e
    | .ok w' => .ok (true, w'.completeReconcile intent .installed .installed)

def installHistorical (w : World) (intent : Intent) (r : Record) : Except Err (Bool × World) :=
  if ¬ w.lockIntent intent then .ok (false, w.lockHead intent.key)
  else
    match insertLedgers (w.lockHead intent.key) r with
    | .error e => .error e
    | .ok w' => .ok (true, w'.completeReconcile intent .installed .installed)

def installSnapshot (w : World) (intent : Intent) (s : Snapshot) (held : Record) :
    Except Err (Bool × World) :=
  if ¬ w.lockIntent intent then .ok (false, w.lockHead intent.key)
  else
    match insertLedgerRows (w.lockHead intent.key) intent.key s.fold.version s.fold.identity.eventId
        s.fold.identity.hash none with
    | .error e => .error e
    | .ok w₁ =>
      match headRow s.fold.version s.fold.identity (some s.provenance) with
      | none => .error []
      | some row =>
        match insertAudit (w₁.setHead intent.key row) intent.key intent.token held
            .unknownStaleHistory with
        | .error e => .error e
        | .ok w₂ =>
          .ok (true, { w₂.completeReconcile intent .audited .dlq with
            participants := Function.update w₂.participants intent.key s.fold.participants
            base := Function.update w₂.base intent.key (some s) })

def recordPoison (w : World) (r : Record) (reason : Reason) : Except Err (Unit × World) :=
  match insertAudit w r.key "" r reason with
  | .error e => .error e
  | .ok w' => .ok ((), w')

def failReconcile (w : World) (intent : Intent) (held : Record) : Except Err (Bool × World) :=
  if ¬ w.lockIntent intent then .ok (false, w.lockHead intent.key)
  else
    match w.pendingInput intent.key.tenantId held.identity.eventId with
    | none => .error []
    | some input =>
      if input.attempts + 1 < 3 then
        .ok (false, (w.lockHead intent.key).setInput intent.key.tenantId held.identity.eventId
          (· + 1) .pending)
      else
        match insertAudit (w.lockHead intent.key) intent.key intent.token held
            .reconcileExhausted with
        | .error e => .error e
        | .ok w' =>
          .ok (true, (w'.setInput intent.key.tenantId held.identity.eventId (· + 1) .dlq)
            |>.completeIntent intent .audited)

end Store

end RelayPoint.Participation
