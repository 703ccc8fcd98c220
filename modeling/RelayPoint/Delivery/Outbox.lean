import RelayPoint.Delivery.Receipt
import RelayPoint.RouteProjection.Store

/-!
# Outbox — claims on the acknowledgements that are due

A row of the outbox is taken by one worker at a time: `Claim` marks it with a fresh token for a
limited time, and `Complete` and `Retry` find the row by that token.  Each of them is one statement,
so one step here.  `AckTables` has the columns that `Append` writes, which nothing changes later, and
apart from them the columns in which a row is claimed.
-/

namespace RelayPoint.Delivery

open Wire
open Participation (Digest fitsBigint)
open Protobuf (TextDecoder)
open RouteProjection (uuidColumn)
open UuidText (uuidIn)

/-! ## Columns -/

inductive AckStatus where
  | pending
  | claimed
  | completed
  deriving DecidableEq, Repr

structure Claiming where
  status : AckStatus := .pending
  claimToken : Option String := none
  claimUntil : Option Int := none
  attempts : Nat := 0
  nextAttemptAt : Int
  resultDisposition : Option String := none
  resultRouteVersion : Option Nat := none
  resultEventId : Option String := none
  lastError : Option Bytes := none
  completedAt : Option Int := none
  deriving DecidableEq

structure ReceiptKey where
  tenantId : String
  receiptId : String
  deriving DecidableEq, Repr

def OutboxRow.receiptKey (r : OutboxRow) : ReceiptKey :=
  ⟨r.key.tenantId, r.receiptId⟩

structure AckTables where
  tables : Tables := .empty
  claiming : ReceiptKey → Claiming := fun _ => { nextAttemptAt := 0 }
  now : Int

def AckTables.row (w : AckTables) (key : ReceiptKey) : Option OutboxRow :=
  w.tables.outbox.rows.find? fun r => r.receiptKey = key

def AckTables.write (w : AckTables) (key : ReceiptKey) (c : Claiming) : AckTables :=
  { w with claiming := Function.update w.claiming key c }

/-! ## Claim -/

def defaultClaimTTL : Int := 30 * 1000000

structure AckClaim where
  receipt : DeliveryReceipt
  claimToken : String
  expectedRouteVersion : Nat
  fencingToken : String
  requestHash : Digest
  deriving DecidableEq

def Claiming.Due (c : Claiming) (now : Int) : Prop :=
  c.nextAttemptAt ≤ now ∧
    (c.status = .pending ∨ c.status = .claimed ∧ ∃ t ∈ c.claimUntil, t ≤ now)
  deriving Decidable

/-- The claim that the returned columns make.  It is an error if the receipt cannot be decoded; the row
stays claimed. -/
def claimOf (row : OutboxRow) (token : String) : Option AckClaim :=
  match unmarshalReceipt row.receiptBody, uuidIn row.fencingToken with
  | some receipt, some fencingToken =>
    some ⟨receipt, token, row.expectedRouteVersion, fencingToken, row.requestHash⟩
  | _, _ => none

def claim (w : AckTables) (tenantId : String) (key : ReceiptKey) (token : String) (elapsed : Nat) :
    Option (OutboxRow × AckTables) :=
  match w.row key with
  | none => none
  | some row =>
    if uuidIn tenantId = some key.tenantId ∧ (w.claiming key).Due w.now then
      let w := { w with now := w.now + elapsed }
      some (row, w.write key
        { w.claiming key with
          status := .claimed
          claimToken := some token
          claimUntil := some (w.now + defaultClaimTTL) })
    else none

/-! ## Complete and Retry -/

def AckTables.target (w : AckTables) (tenantId receiptId claimToken : String) : Option ReceiptKey :=
  match uuidIn tenantId, uuidIn receiptId, uuidIn claimToken with
  | some tenant, some receipt, some token =>
    let key := ReceiptKey.mk tenant receipt
    if (w.row key).isSome ∧ (w.claiming key).claimToken = some token ∧ (w.claiming key).status = .claimed then
      some key
    else none
  | _, _, _ => none

structure AckResult where
  disposition : Nat
  routeVersion : Nat
  eventId : String
  deriving DecidableEq, Repr

def ackApplied : Nat := 1
def ackAlreadyApplied : Nat := 2
def ackTerminalExpired : Nat := 3

def ackDisposition (disposition : Nat) : String :=
  if disposition = ackApplied then "APPLIED"
  else if disposition = ackAlreadyApplied then "ALREADY_APPLIED"
  else if disposition = ackTerminalExpired then "TERMINAL_EXPIRED"
  else "UNKNOWN"

def complete (w : AckTables) (tenantId receiptId claimToken : String) (result : AckResult) : Option AckTables :=
  match w.target tenantId receiptId claimToken, uuidColumn result.eventId with
  | some key, some eventId =>
    if fitsBigint result.routeVersion then
      some (w.write key
        { w.claiming key with
          status := .completed
          resultDisposition := some (ackDisposition result.disposition)
          resultRouteVersion := some result.routeVersion
          resultEventId := eventId.map (·.1)
          completedAt := some w.now
          claimToken := none
          claimUntil := none })
    else none
  | _, _ => none

def acceptsText (b : Bytes) : Bool :=
  (TextDecoder.strict.decode b).any fun s => !s.toList.contains (Char.ofNat 0)

def cutMessage (message : Bytes) : Bytes :=
  if 512 < message.length then message.take 512 else message

def retry (w : AckTables) (tenantId receiptId claimToken : String) (cause : Bytes) : Option AckTables :=
  match w.target tenantId receiptId claimToken with
  | none => none
  | some key =>
    let c := w.claiming key
    if acceptsText (cutMessage cause) ∧ c.attempts + 1 < 2 ^ 31 then
      some (w.write key
        { c with
          status := .pending
          attempts := c.attempts + 1
          nextAttemptAt := w.now
          lastError := some (cutMessage cause)
          claimToken := none
          claimUntil := none })
    else none

/-! ## What the statements do -/

section Statements

variable {w w' : AckTables} {key : ReceiptKey} {tenantId receiptId token : String}

@[simp] theorem claiming_write (w : AckTables) (key : ReceiptKey) (c : Claiming) (k : ReceiptKey) :
    (w.write key c).claiming k = if k = key then c else w.claiming k := by
  simp [AckTables.write, Function.update_apply]

@[simp] theorem tables_write (w : AckTables) (key : ReceiptKey) (c : Claiming) :
    (w.write key c).tables = w.tables :=
  rfl

@[simp] theorem now_write (w : AckTables) (key : ReceiptKey) (c : Claiming) : (w.write key c).now = w.now :=
  rfl

theorem row_some {row : OutboxRow} (h : w.row key = some row) :
    row ∈ w.tables.outbox.rows ∧ row.receiptKey = key :=
  ⟨List.mem_of_find?_eq_some h, by simpa using List.find?_some h⟩

structure Claimed (w : AckTables) (key : ReceiptKey) (token : String) : Prop where
  row : (w.row key).isSome = true
  status : (w.claiming key).status = .claimed
  token : ∃ k, uuidIn token = some k ∧ (w.claiming key).claimToken = some k

theorem target_some (h : w.target tenantId receiptId token = some key) :
    uuidIn tenantId = some key.tenantId ∧ uuidIn receiptId = some key.receiptId ∧ Claimed w key token := by
  unfold AckTables.target at h
  split at h
  · next t r k ht hr hk =>
      simp only [Option.ite_none_right_eq_some, Option.some.injEq] at h
      obtain ⟨⟨hrow, htoken, hstatus⟩, rfl⟩ := h
      exact ⟨ht, hr, hrow, hstatus, k, hk, htoken⟩
  · cases h

theorem claim_some {row : OutboxRow} {elapsed : Nat} (h : claim w tenantId key token elapsed = some (row, w')) :
    w.row key = some row ∧ (w.claiming key).Due w.now ∧
      w' = { w with now := w.now + elapsed }.write key
        { w.claiming key with
          status := .claimed
          claimToken := some token
          claimUntil := some (w.now + elapsed + defaultClaimTTL) } := by
  unfold claim at h
  split at h
  · cases h
  · next row' hrow =>
      split at h
      · next hdue =>
          cases h
          exact ⟨hrow, hdue.2, rfl⟩
      · cases h

theorem complete_some {result : AckResult} (h : complete w tenantId receiptId token result = some w') :
    ∃ key c, w.target tenantId receiptId token = some key ∧ c.status = .completed ∧ w' = w.write key c := by
  unfold complete at h
  split at h
  · next key eventId hkey _ =>
      simp only [Option.ite_none_right_eq_some, Option.some.injEq] at h
      exact ⟨key, _, hkey, rfl, h.2.symm⟩
  · cases h

theorem retry_some {cause : Bytes} (h : retry w tenantId receiptId token cause = some w') :
    ∃ key c, w.target tenantId receiptId token = some key ∧ c.status = .pending ∧ w' = w.write key c := by
  unfold retry at h
  split at h
  · cases h
  · next key hkey =>
      simp only [Option.ite_none_right_eq_some, Option.some.injEq] at h
      exact ⟨key, _, hkey, rfl, h.2.symm⟩

end Statements

end RelayPoint.Delivery
