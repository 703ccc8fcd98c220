import RelayPoint.Concurrency.Pool
import RelayPoint.RouteProjection.Store

/-!
# Machine — the database, the router and the clock as atomic operations

Two services share one database: the delivery service, which accepts authorizations, and the route
projector.  Every method of the store is one transaction, except `Load`, whose reads of the clock, the
head and the ledger are separate operations.
-/

namespace RelayPoint.RouteProjection

open Concurrency
open Participation (Key isUuidv7 fitsBigint)
open UuidText (uuidIn)

structure ProjectionPrincipal where
  serviceId : String
  tenantId : String
  capability : String
  deriving DecidableEq, Repr

structure ReplayRequest where
  key : Key
  fromVersion : Nat
  toVersion : Nat
  deriving DecidableEq, Repr

inductive Op where
  | clock
  | readHead (tenantId interactionId : String)
  | readLedger (tenantId interactionId : String) (version : Nat)
  | authorization (tenantId authorizationId : String)
  | installBatch (expected : Nat) (facts : List RouteFact) (final : FoldedState)
  | beginReconcile (intent : ReconcileIntent)
  | installReconcileBatch (intent : ReconcileIntent) (facts : List RouteFact) (final : FoldedState)
  | installHistoricalIdentity (intent : ReconcileIntent) (fact : RouteFact)
  | installSnapshotAndAudit (intent : ReconcileIntent) (snapshot : Snapshot) (held : RouteFact)
  | recordPoison (fact : RouteFact)
  | append (input : Delivery.AppendInput)
  | ids
  | replayRouteFacts (principal : ProjectionPrincipal) (request : ReplayRequest)
  | getRouteSnapshot (principal : ProjectionPrincipal) (key : Key)

def Ans : Op → Type
  | .clock => Except Err Int
  | .readHead _ _ => Except Err (Option HeadRow)
  | .readLedger _ _ _ => Except Err (Option Identity)
  | .authorization _ _ => Except Err (Option (String × String))
  | .installBatch _ _ _ => Except Err Bool
  | .beginReconcile _ => Except Err (ReconcileIntent × Bool)
  | .installReconcileBatch _ _ _ => Except Err Bool
  | .installHistoricalIdentity _ _ => Except Err Bool
  | .installSnapshotAndAudit _ _ _ => Except Err Bool
  | .recordPoison _ => Except Err Unit
  | .append _ => Except Delivery.Err Delivery.AppendResult
  | .ids => String
  | .replayRouteFacts _ _ => Except Err ReplayResult
  | .getRouteSnapshot _ _ => Except Err Snapshot

/-- `sequence` is `go` or `lost` for an append, with the value of the identity column. -/
inductive Choice where
  | go
  | fail
  | lost
  | sequence (n : Nat) (lost : Bool)
  | id (s : String)
  | replayed (answer : Except Err ReplayResult)
  | snapshotted (answer : Except Err Snapshot)
  deriving DecidableEq

def uuidKey (tenantId interactionId : String) : Option Key :=
  match uuidIn tenantId, uuidIn interactionId with
  | some t, some i => some ⟨t, i⟩
  | _, _ => none

def World.retained (w : World) (key : Key) (version : Nat) : Option Identity :=
  (w.versions.rows.find? fun r => r.key = key ∧ r.version = version).map fun r =>
    ⟨r.eventId, r.hash⟩

def readAnswer {α : Type} (w : World) (answer : Except Err α) : Choice → Option (Except Err α × World)
  | .go => some (answer, w)
  | .fail => some (.error [], w)
  | _ => none

def transact {α : Type} (w : World) (tx : Except Err (α × World)) :
    Choice → Option (Except Err α × World)
  | .go =>
    match tx with
    | .error e => some (.error e, w)
    | .ok (a, w') => some (.ok a, w')
  | .fail => some (.error [], w)
  | .lost =>
    match tx with
    | .error _ => none
    | .ok (_, w') => some (.error [], w')
  | _ => none

def performAppend (w : World) (input : Delivery.AppendInput) :
    Choice → Option (Except Delivery.Err Delivery.AppendResult × World)
  | .sequence n lost =>
    match Delivery.append w.delivery w.now n input with
    | .error e => some (.error e, w)
    | .ok (result, tables) =>
      some (if lost then .error .unavailable else .ok result, { w with delivery := tables })
  | .fail => some (.error .unavailable, w)
  | _ => none

def perform (w : World) : (op : Op) → Choice → Option (Ans op × World)
  | .clock, ch => readAnswer w (.ok w.now) ch
  | .readHead tenantId interactionId, ch =>
    readAnswer w (match uuidKey tenantId interactionId with
      | none => .error []
      | some key => .ok (w.heads key)) ch
  | .readLedger tenantId interactionId version, ch =>
    readAnswer w (match uuidKey tenantId interactionId with
      | none => .error []
      | some key => if fitsBigint version then .ok (w.retained key version) else .error []) ch
  | .authorization tenantId authorizationId, ch =>
    readAnswer w (Store.authorization w tenantId authorizationId) ch
  | .installBatch expected facts final, ch => transact w (Store.installBatch w expected facts final) ch
  | .beginReconcile intent, ch => transact w (Store.beginReconcile w intent) ch
  | .installReconcileBatch intent facts final, ch =>
    transact w (Store.installReconcileBatch w intent facts final) ch
  | .installHistoricalIdentity intent fact, ch =>
    transact w (Store.installHistoricalIdentity w intent fact) ch
  | .installSnapshotAndAudit intent s held, ch =>
    transact w (Store.installSnapshotAndAudit w intent s held) ch
  | .recordPoison fact, ch => transact w (Store.recordPoison w fact) ch
  | .append input, ch => performAppend w input ch
  | .ids, .id s => if isUuidv7 s then some (s, w) else none
  | .ids, _ => none
  | .replayRouteFacts _ _, .replayed answer => some (answer, w)
  | .replayRouteFacts _ _, _ => none
  | .getRouteSnapshot _ _, .snapshotted answer => some (answer, w)
  | .getRouteSnapshot _ _, _ => none

def machine : Machine Ans World Choice Nat where
  perform := perform
  tick := fun w micros => some { w with now := w.now + micros }

abbrev Program := Prog Ans

/-! ## Answers -/

section Answers

variable {α : Type} {w w' : World} {ch : Choice}

theorem readAnswer_cases {answer a : Except Err α} (h : readAnswer w answer ch = some (a, w')) :
    w' = w ∧ (a = answer ∨ a = .error []) := by
  cases ch with
  | go =>
    cases h
    exact ⟨rfl, .inl rfl⟩
  | fail =>
    cases h
    exact ⟨rfl, .inr rfl⟩
  | _ => cases h

theorem transact_cases {tx : Except Err (α × World)} {a : Except Err α}
    (h : transact w tx ch = some (a, w')) :
    (w' = w ∧ ∃ e, a = .error e) ∨ ∃ b, tx = .ok (b, w') ∧ (a = .ok b ∨ a = .error []) := by
  cases ch with
  | go =>
    cases tx with
    | error e =>
      cases h
      exact .inl ⟨rfl, e, rfl⟩
    | ok b =>
      cases h
      exact .inr ⟨b.1, rfl, .inl rfl⟩
  | fail =>
    cases h
    exact .inl ⟨rfl, [], rfl⟩
  | lost =>
    cases tx with
    | error e => cases h
    | ok b =>
      cases h
      exact .inr ⟨b.1, rfl, .inr rfl⟩
  | _ => cases h

theorem performAppend_cases {input : Delivery.AppendInput}
    {a : Except Delivery.Err Delivery.AppendResult} (h : performAppend w input ch = some (a, w')) :
    (w' = w ∧ ∃ e, a = .error e ∧ (e = .unavailable ∨
      ∃ n, Delivery.append w.delivery w.now n input = .error e)) ∨
    ∃ n lost result tables, ch = .sequence n lost ∧
      Delivery.append w.delivery w.now n input = .ok (result, tables) ∧
      w' = { w with delivery := tables } ∧
      a = if lost then .error .unavailable else .ok result := by
  cases ch with
  | sequence n lost =>
    cases happend : Delivery.append w.delivery w.now n input with
    | error e =>
      simp only [performAppend, happend, Option.some.injEq, Prod.mk.injEq] at h
      exact .inl ⟨h.2.symm, e, h.1.symm, .inr ⟨n, happend⟩⟩
    | ok r =>
      rcases r with ⟨result, tables⟩
      simp only [performAppend, happend, Option.some.injEq, Prod.mk.injEq] at h
      exact .inr ⟨n, lost, result, tables, rfl, happend, h.2.symm, h.1.symm⟩
  | fail =>
    cases h
    exact .inl ⟨rfl, .unavailable, rfl, .inl rfl⟩
  | _ => cases h

end Answers

end RelayPoint.RouteProjection
