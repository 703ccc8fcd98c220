import RelayPoint.RouteProjection.Machine

/-!
# Apply — the route projector

`apply` is the projector's `Apply` with `reconcile`, `validateAuthorizationBindings` and
`snapshotUnknown`, and `visible` its `Visible`, as programs over the operations of `Machine.lean`.
-/

namespace RelayPoint.RouteProjection

open Concurrency
open Participation (Key isUuidv7)

/-! ## Load -/

def HeadRow.state (row : HeadRow) : FoldedState where
  version := row.version
  eventId := row.eventId.getD ""
  hash := row.hash.getD zeroHash
  visibility := if row.visible then .visible else .hidden
  deliveryAuthorizationId := uuidText row.deliveryAuthorizationId
  receiptId := uuidText row.receiptId
  visibilityGeneration := row.visibilityGeneration
  leaseUntil := timeOf row.leaseUntil

def loadLedger (p : Projection) (version : Nat) :
    Program (Except Err (Projection × Option Identity)) :=
  if version = 0 then return .ok (p, none)
  else do
    match ← Prog.perform (Op.readLedger p.tenantId p.interactionId version) with
    | .error e => return .error e
    | .ok retained => return .ok (p, retained)

def load (tenantId interactionId : String) (version : Nat) :
    Program (Except Err (Projection × Option Identity)) := do
  match ← Prog.perform Op.clock with
  | .error e => return .error e
  | .ok now =>
    match ← Prog.perform (Op.readHead tenantId interactionId) with
    | .error e => return .error e
    | .ok row =>
      loadLedger ⟨tenantId, interactionId, (row.getD HeadRow.initial).state, now * 1000⟩ version

/-! ## Visible -/

def visible (tenantId interactionId : String) : Program (Except Err Bool) := do
  match ← load tenantId interactionId 0 with
  | .error e => return .error e
  | .ok (p, _) =>
    if p.state.visibility ≠ .visible ∨ p.databaseNow = 0 then return .ok false
    else return .ok (p.databaseNow < p.state.leaseUntil)

/-! ## Reconcile -/

inductive ApplyResult where
  | applied
  | duplicate
  | compareAndSetLost
  | poisoned
  | auditedUnknownHistory
  deriving DecidableEq, Repr

structure Outcome where
  result : Option ApplyResult
  err : Option Err
  deriving DecidableEq, Repr

def installOutcome (success : ApplyResult) : Except Err Bool → Outcome
  | .error e => ⟨none, some e⟩
  | .ok false => ⟨some .compareAndSetLost, none⟩
  | .ok true => ⟨some success, none⟩

def validateAuthorizationBindings : List RouteFact → Program (Except Err Unit)
  | [] => return .ok ()
  | f :: fs =>
    if f.kind ≠ .ringing then validateAuthorizationBindings fs
    else do
      match ← Prog.perform (Op.authorization f.tenantId f.deliveryAuthorizationId) with
      | .error e => return .error e
      | .ok binding =>
        if binding = some (f.interactionId, f.receiptId) then validateAuthorizationBindings fs
        else return .error [.authorizationPending]

def Snapshot.ringing (s : Snapshot) : RouteFact :=
  ⟨s.projection.tenantId, s.projection.interactionId, "", 0, .ringing,
    s.projection.state.deliveryAuthorizationId, s.projection.state.receiptId, 0, 0⟩

def snapshotUnknown (principal : ProjectionPrincipal) (intent : ReconcileIntent) (held : RouteFact) :
    Program Outcome := do
  match ← Prog.perform (Op.getRouteSnapshot principal held.key) with
  | .error e => return ⟨none, some e⟩
  | .ok s =>
    if ¬ validateSnapshot s intent held then return ⟨some .poisoned, some [.invalidReplay]⟩
    else
      match ← validateAuthorizationBindings
          (if s.projection.state.visibility = .visible then [s.ringing] else []) with
      | .error e => return ⟨none, some e⟩
      | .ok () =>
        let installed ← Prog.perform (Op.installSnapshotAndAudit intent s held)
        return installOutcome .auditedUnknownHistory installed

def replayHistorical (intent : ReconcileIntent) (held : RouteFact) (replay : ReplayResult) :
    Program Outcome :=
  match replay.facts with
  | [replayed] =>
    if replayed.version ≠ held.version then return ⟨some .poisoned, some [.invalidReplay]⟩
    else if replayed.eventId ≠ held.eventId ∨ hashRouteFact replayed ≠ hashRouteFact held then do
      match ← Prog.perform (Op.recordPoison held) with
      | .error e => return ⟨some .poisoned, some e⟩
      | .ok () => return ⟨some .poisoned, some [.divergentHistory]⟩
    else do
      match ← validateAuthorizationBindings [replayed] with
      | .error e => return ⟨none, some e⟩
      | .ok () =>
        let installed ← Prog.perform (Op.installHistoricalIdentity intent replayed)
        return installOutcome .duplicate installed
  | _ => return ⟨some .poisoned, some [.invalidReplay]⟩

/-- The replay reaches the held fact, the router has what it replayed, and the held fact is in it. -/
def coversHeld (held : RouteFact) (replay : ReplayResult) : Bool :=
  (replay.facts.getLast?.any fun last =>
    held.version ≤ last.version && last.version ≤ replay.routerHead) &&
    replay.facts.any fun f => f.version = held.version && f.eventId = held.eventId &&
      hashRouteFact f = hashRouteFact held

def replayGap (p : Projection) (intent : ReconcileIntent) (held : RouteFact) (replay : ReplayResult) :
    Program Outcome :=
  if replay.facts.any fun f => f.key ≠ held.key then
    return ⟨some .poisoned, some [.invalidReplay]⟩
  else do
    match ← validateAuthorizationBindings replay.facts with
    | .error e => return ⟨none, some e⟩
    | .ok () =>
      match foldBatch p replay.facts with
      | .error _ => return ⟨some .poisoned, some [.invalidReplay]⟩
      | .ok final =>
        if ¬ coversHeld held replay then return ⟨some .poisoned, some [.invalidReplay]⟩
        else
          let installed ← Prog.perform (Op.installReconcileBatch intent replay.facts final)
          return installOutcome .applied installed

def newIntent (token : String) (p : Projection) (held : RouteFact) (historical : Bool) :
    ReconcileIntent where
  token := token
  key := held.key
  observedVersion := p.version
  requestedFrom := if historical then held.version else p.version + 1
  requestedTo := held.version
  heldEventId := held.eventId
  heldHash := hashRouteFact held

def capabilityProjectionRead : String := "router.projection.read"

def reconcile (p : Projection) (held : RouteFact) (historical : Bool) : Program Outcome := do
  let token ← Prog.perform Op.ids
  if ¬ isUuidv7 token then return ⟨none, some [.invalidFact]⟩
  else
    let proposed := newIntent token p held historical
    match ← Prog.perform (Op.beginReconcile proposed) with
    | .error e => return ⟨none, some e⟩
    | .ok (_, false) => return ⟨some .compareAndSetLost, none⟩
    | .ok (intent, true) =>
      let principal : ProjectionPrincipal := ⟨"relaypoint", held.tenantId, capabilityProjectionRead⟩
      match ← Prog.perform (Op.replayRouteFacts principal
          ⟨held.key, proposed.requestedFrom, proposed.requestedTo⟩) with
      | .error e =>
        if .unknownHistory ∈ e then snapshotUnknown principal intent held
        else return ⟨none, some e⟩
      | .ok replay =>
        if historical then replayHistorical intent held replay
        else replayGap p intent held replay

/-! ## Apply -/

def applyLoaded (f : RouteFact) (p : Projection) (retained : Option Identity) : Program Outcome :=
  if f.version ≤ p.version then
    match retained with
    | none => reconcile p f true
    | some identity =>
      if identity.eventId = f.eventId ∧ identity.hash = hashRouteFact f then
        return ⟨some .duplicate, none⟩
      else do
        match ← Prog.perform (Op.recordPoison f) with
        | .error e => return ⟨some .poisoned, some e⟩
        | .ok () => return ⟨some .poisoned, some [.divergentHistory]⟩
  else if p.version + 1 < f.version then reconcile p f false
  else do
    match ← validateAuthorizationBindings [f] with
    | .error e => return ⟨none, some e⟩
    | .ok () =>
      match foldBatch p [f] with
      | .error e => return ⟨some .poisoned, some e⟩
      | .ok final =>
        let installed ← Prog.perform (Op.installBatch p.version [f] final)
        return installOutcome .applied installed

def apply (f : RouteFact) : Program Outcome :=
  if ¬ validateFact f then return ⟨some .poisoned, some [.invalidFact]⟩
  else do
    match ← load f.tenantId f.interactionId f.version with
    | .error e => return ⟨none, some e⟩
    | .ok (p, retained) => applyLoaded f p retained

end RelayPoint.RouteProjection
