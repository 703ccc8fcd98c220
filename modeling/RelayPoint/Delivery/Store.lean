import RelayPoint.Data.Table
import RelayPoint.Delivery.Message
import RelayPoint.Participation.Store

/-!
# Store — the tables of accepted deliveries

An accepted authorization has a row in each of three tables: the delivery log, the authorizations and
the outbox of acknowledgements.  `append` is the transaction that writes them together, or finds that
the authorization has been accepted before.

Columns that nothing reads back are left out.  The identity column of the log takes its values from a
sequence, which a rolled-back transaction does not give back, so the value is an argument here.
-/

namespace RelayPoint.Delivery

open Wire
open Participation (Digest fitsBigint)

/-! ## Tables -/

structure Key where
  tenantId : String
  deliveryAuthorizationId : String
  deriving DecidableEq, Repr

def Content.key (c : Content) : Key :=
  ⟨c.tenantId, c.deliveryAuthorizationId⟩

structure LogRow where
  key : Key
  logSequence : Nat
  receiptId : String
  requestHash : Digest
  body : Bytes
  acceptedAt : Int
  deriving DecidableEq

def LogRow.Clash (r s : LogRow) : Prop :=
  (r.key.tenantId = s.key.tenantId ∧ r.logSequence = s.logSequence) ∨ r.key = s.key ∨
    (r.key.tenantId = s.key.tenantId ∧ r.receiptId = s.receiptId)
  deriving Decidable

structure AuthorizationRow where
  key : Key
  eventId : String
  interactionId : String
  requestHash : Digest
  requestBody : Bytes
  receiptId : String
  acceptedAt : Int
  logSequence : Nat
  deriving DecidableEq

def AuthorizationRow.Clash (r s : AuthorizationRow) : Prop :=
  r.key = s.key ∨ (r.key.tenantId = s.key.tenantId ∧ r.eventId = s.eventId) ∨
    (r.key.tenantId = s.key.tenantId ∧ r.receiptId = s.receiptId)
  deriving Decidable

structure OutboxRow where
  key : Key
  receiptId : String
  expectedRouteVersion : Nat
  fencingToken : String
  receiptBody : Bytes
  requestHash : Digest
  deriving DecidableEq

def OutboxRow.Clash (r s : OutboxRow) : Prop :=
  r.key.tenantId = s.key.tenantId ∧ r.receiptId = s.receiptId
  deriving Decidable

structure Tables where
  log : Table LogRow LogRow.Clash
  authorizations : Table AuthorizationRow AuthorizationRow.Clash
  outbox : Table OutboxRow OutboxRow.Clash

def Tables.empty : Tables :=
  ⟨.empty, .empty, .empty⟩

def Tables.authorization (t : Tables) (key : Key) : Option AuthorizationRow :=
  t.authorizations.rows.find? fun r => r.key = key

/-! ## Append -/

structure AppendInput where
  authorization : Content
  receiptId : String
  issuerService : String
  requestHash : Digest
  requestBody : Bytes

structure AppendResult where
  receiptId : String
  acceptedAt : Int
  logSequence : Nat
  deriving DecidableEq

def receiptFromAppend (input : AppendInput) (result : AppendResult) : DeliveryReceipt where
  receiptId := result.receiptId
  deliveryAuthorizationId := input.authorization.deliveryAuthorizationId
  eventId := input.authorization.eventId
  tenantId := input.authorization.tenantId
  reservationId := input.authorization.reservationId
  interactionId := input.authorization.interactionId
  targetSubscriberId := input.authorization.targetSubscriberId
  acceptedAt := timestampNew result.acceptedAt
  deliveryDeadline := input.authorization.deliveryDeadline
  logSequence := result.logSequence
  issuerServiceId := input.issuerService
  visibility := .pendingNotVisible

def acknowledgement (input : AppendInput) (result : AppendResult) : AcknowledgeRequest where
  requestId := result.receiptId
  tenantId := input.authorization.tenantId
  reservationId := input.authorization.reservationId
  interactionId := input.authorization.interactionId
  expectedRouteVersion := input.authorization.routeVersion
  fencingToken := input.authorization.fencingToken
  receipt := receiptFromAppend input result

def LogRow.of (input : AppendInput) (result : AppendResult) : LogRow :=
  ⟨input.authorization.key, result.logSequence, result.receiptId, input.requestHash,
    input.requestBody, result.acceptedAt⟩

def AuthorizationRow.of (input : AppendInput) (result : AppendResult) : AuthorizationRow :=
  ⟨input.authorization.key, input.authorization.eventId, input.authorization.interactionId,
    input.requestHash, input.requestBody, result.receiptId, result.acceptedAt, result.logSequence⟩

def OutboxRow.of (input : AppendInput) (result : AppendResult) : OutboxRow :=
  ⟨input.authorization.key, result.receiptId, input.authorization.routeVersion,
    input.authorization.fencingToken, (receiptFromAppend input result).marshal,
    (acknowledgement input result).hash⟩

def insertAccepted (t : Tables) (input : AppendInput) (result : AppendResult) :
    Except Err (AppendResult × Tables) :=
  match t.log.insert (.of input result) with
  | none => .error .violation
  | some log =>
    if ¬ fitsBigint input.authorization.routeVersion then .error .violation
    else
      match t.authorizations.insert (.of input result) with
      | none => .error .violation
      | some authorizations =>
        match t.outbox.insert (.of input result) with
        | none => .error .violation
        | some outbox => .ok (result, ⟨log, authorizations, outbox⟩)

def append (t : Tables) (now : Int) (sequence : Nat) (input : AppendInput) :
    Except Err (AppendResult × Tables) :=
  match t.authorization input.authorization.key with
  | some row =>
    if row.requestHash ≠ input.requestHash then .error .idempotencyConflict
    else .ok (⟨row.receiptId, row.acceptedAt, row.logSequence⟩, t)
  | none => insertAccepted t input ⟨input.receiptId, now, sequence⟩

/-! ## What `Append` does -/

section Append

variable {t t' : Tables} {now : Int} {sequence : Nat} {input : AppendInput} {result : AppendResult}
variable {row r s : AuthorizationRow}

theorem mem_authorization {key : Key} (h : t.authorization key = some row) :
    row ∈ t.authorizations.rows ∧ row.key = key :=
  ⟨List.mem_of_find?_eq_some h, by simpa using List.find?_some h⟩

theorem no_authorization {key : Key} (h : t.authorization key = none) :
    ∀ row ∈ t.authorizations.rows, row.key ≠ key := by
  intro row hrow
  simpa using List.find?_eq_none.1 h row hrow

theorem AuthorizationRow.clash_symm (h : AuthorizationRow.Clash r s) :
    AuthorizationRow.Clash s r := by
  rcases h with hkey | ⟨htenant, hevent⟩ | ⟨htenant, hreceipt⟩
  · exact .inl hkey.symm
  · exact .inr (.inl ⟨htenant.symm, hevent.symm⟩)
  · exact .inr (.inr ⟨htenant.symm, hreceipt.symm⟩)

theorem authorization_unique (hr : r ∈ t.authorizations.rows) (hs : s ∈ t.authorizations.rows)
    (hkey : r.key = s.key) : r = s :=
  t.authorizations.mem_eq_of_clash AuthorizationRow.clash_symm hr hs (.inl hkey)

theorem authorization_of_mem (h : row ∈ t.authorizations.rows) :
    t.authorization row.key = some row := by
  cases hfind : t.authorization row.key with
  | none => exact absurd rfl (no_authorization hfind row h)
  | some found =>
    rcases mem_authorization hfind with ⟨hmem, hkey⟩
    rw [authorization_unique hmem h hkey]

structure Accepted (t t' : Tables) (input : AppendInput) (result : AppendResult) : Prop where
  log : t'.log.rows = t.log.rows ++ [.of input result]
  authorizations : t'.authorizations.rows = t.authorizations.rows ++ [.of input result]
  outbox : t'.outbox.rows = t.outbox.rows ++ [.of input result]

theorem append_ok (h : append t now sequence input = .ok (result, t')) :
    (t' = t ∧ ∃ row ∈ t.authorizations.rows, row.key = input.authorization.key ∧
      row.requestHash = input.requestHash ∧
      result = ⟨row.receiptId, row.acceptedAt, row.logSequence⟩) ∨
    (result = ⟨input.receiptId, now, sequence⟩ ∧ Accepted t t' input result) := by
  unfold append at h
  split at h
  · next row hrow =>
      rcases mem_authorization hrow with ⟨hmem, hkey⟩
      split at h
      · cases h
      · next hhash =>
          cases h
          exact .inl ⟨rfl, row, hmem, hkey, not_not.1 hhash, rfl⟩
  · unfold insertAccepted at h
    split at h
    · cases h
    · next log hlog =>
        split at h
        · cases h
        · split at h
          · cases h
          · next authorizations hauthorizations =>
              split at h
              · cases h
              · next outbox houtbox =>
                  cases h
                  exact .inr ⟨rfl, (Table.insert_eq_some hlog).1,
                    (Table.insert_eq_some hauthorizations).1, (Table.insert_eq_some houtbox).1⟩

theorem append_error {e : Err} (h : append t now sequence input = .error e) :
    (e = .idempotencyConflict ∧ ∃ row ∈ t.authorizations.rows, row.key = input.authorization.key) ∨
    (e = .violation ∧ ∀ row ∈ t.authorizations.rows, row.key ≠ input.authorization.key) := by
  unfold append at h
  split at h
  · next row hrow =>
      rcases mem_authorization hrow with ⟨hmem, hkey⟩
      split at h
      · exact .inl ⟨(Except.error.inj h).symm, row, hmem, hkey⟩
      · cases h
  · next hnone =>
      refine .inr ⟨?_, no_authorization hnone⟩
      unfold insertAccepted at h
      split at h
      · exact (Except.error.inj h).symm
      · split at h
        · exact (Except.error.inj h).symm
        · split at h
          · exact (Except.error.inj h).symm
          · split at h
            · exact (Except.error.inj h).symm
            · cases h

end Append

end RelayPoint.Delivery
