import RelayPoint.Concurrency.Pool
import RelayPoint.Participation.Store

/-!
# Apply — the participation projector and its consumer

`apply` is the projector's `Apply` with `reconcile`, `snapshot` and `failReconcile`, and `handle` the
consumer's treatment of one message.  They are programs over atomic operations:

* every method of the store is one transaction, except `Load`, whose reads of the head, the
  participants and the ledger are separate operations;
* a transaction may fail without effect, or commit and still report an error;
* the authority may answer anything.

`uuid.NewV7` generates the tokens, so an answer of `ids` is a UUIDv7.
-/

namespace RelayPoint.Participation

open Concurrency Wire

/-! ## Operations -/

inductive Op where
  | readHead (key : Key)
  | readParticipants (key : Key)
  | readLedger (key : Key) (version : Nat)
  | install (expected : Nat) (records : List Record) (final : Fold)
  | beginReconcile (intent : Intent) (held : Record)
  | installReconcile (intent : Intent) (records : List Record) (final : Fold)
  | installHistorical (intent : Intent) (record : Record)
  | installSnapshot (intent : Intent) (snapshot : Snapshot) (held : Record)
  | failReconcile (intent : Intent) (held : Record) (cause : Err)
  | recordPoison (record : Record) (reason : Reason)
  | ids
  | replay (intent : Intent) (held : Record)
  | snapshot (intent : Intent) (held : Record)

def Ans : Op → Type
  | .readHead _ => Except Err (Option HeadRow)
  | .readParticipants _ => Except Err (Finset String)
  | .readLedger _ _ => Except Err (Option Identity)
  | .install _ _ _ => Except Err Bool
  | .beginReconcile _ _ => Except Err (Intent × Bool)
  | .installReconcile _ _ _ => Except Err Bool
  | .installHistorical _ _ => Except Err Bool
  | .installSnapshot _ _ _ => Except Err Bool
  | .failReconcile _ _ _ => Except Err Bool
  | .recordPoison _ _ => Except Err Unit
  | .ids => String
  | .replay _ _ => Except Err (Option ReplayResponse)
  | .snapshot _ _ => Except Err (Option SnapshotResponse)

inductive Choice where
  | go
  | fail
  | lost
  | id (s : String)
  | replayed (answer : Except Err (Option ReplayResponse))
  | snapshotted (answer : Except Err (Option SnapshotResponse))
  deriving DecidableEq

def World.retained (w : World) (key : Key) (version : Nat) : Option Identity :=
  (w.versions.rows.find? fun r => r.key = key ∧ r.version = version).map fun r =>
    ⟨r.eventId, r.hash, r.body.getD []⟩

def readAnswer {α : Type} (w : World) (answer : Except Err α) : Choice → Option (Except Err α × World)
  | .go => some (answer, w)
  | .fail => some (.error [], w)
  | _ => none

def transact {α : Type} (w : World) (tx : Except Err (α × World)) :
    Choice → Option (Except Err α × World)
  | .go =>
    match tx with
    | .error e => some (.error e, w)
    | .ok (a, w') => some (.ok a, w')
  | .fail => some (.error [], w)
  | .lost =>
    match tx with
    | .error _ => none
    | .ok (_, w') => some (.error [], w')
  | _ => none

def perform (w : World) : (op : Op) → Choice → Option (Ans op × World)
  | .readHead key, ch => readAnswer w (.ok (w.heads key)) ch
  | .readParticipants key, ch => readAnswer w (.ok (w.participants key)) ch
  | .readLedger key version, ch =>
    readAnswer w (if fitsBigint version then .ok (w.retained key version) else .error []) ch
  | .install expected records final, ch => transact w (Store.install w expected records final) ch
  | .beginReconcile intent held, ch => transact w (Store.beginReconcile w intent held) ch
  | .installReconcile intent records final, ch =>
    transact w (Store.installReconcile w intent records final) ch
  | .installHistorical intent record, ch => transact w (Store.installHistorical w intent record) ch
  | .installSnapshot intent s held, ch => transact w (Store.installSnapshot w intent s held) ch
  | .failReconcile intent held _, ch => transact w (Store.failReconcile w intent held) ch
  | .recordPoison record reason, ch => transact w (Store.recordPoison w record reason) ch
  | .ids, .id s => if isUuidv7 s then some (s, w) else none
  | .ids, _ => none
  | .replay _ _, .replayed answer => some (answer, w)
  | .replay _ _, _ => none
  | .snapshot _ _, .snapshotted answer => some (answer, w)
  | .snapshot _ _, _ => none

def machine : Machine Ans World Choice Empty where
  perform := perform
  tick := fun _ t => nomatch t

abbrev Program := Prog Ans

/-! ## Load -/

def Fold.initial (key : Key) : Fold :=
  ⟨key.tenantId, key.interactionId, 0, Identity.zero, ∅, ""⟩

def HeadRow.fold (row : HeadRow) (key : Key) (participants : Finset String) : Fold where
  tenantId := key.tenantId
  interactionId := key.interactionId
  version := row.version
  identity :=
    match row.identity with
    | none => Identity.zero
    | some (eventId, hash) => ⟨eventId, hash, []⟩
  participants := participants
  snapshotProvenance := row.provenance.getD ""

def loadLedger (fold : Fold) (key : Key) (version : Nat) :
    Program (Except Err (Fold × Option Identity)) :=
  if version = 0 then return .ok (fold, none)
  else do
    match ← Prog.perform (Op.readLedger key version) with
    | .error e => return .error e
    | .ok retained => return .ok (fold, retained)

def load (key : Key) (version : Nat) : Program (Except Err (Fold × Option Identity)) := do
  match ← Prog.perform (Op.readHead key) with
  | .error e => return .error e
  | .ok none => loadLedger (Fold.initial key) key version
  | .ok (some row) =>
    if 0 < row.version ∧ row.identity = none then return .error [.invalid]
    else
      match ← Prog.perform (Op.readParticipants key) with
      | .error e => return .error e
      | .ok participants => loadLedger (row.fold key participants) key version

/-! ## Reconcile -/

inductive Result where
  | applied
  | duplicate
  | compareAndSetLost
  | poisoned
  | auditedSnapshot
  deriving DecidableEq, Repr

structure Outcome where
  result : Option Result
  err : Option Err
  deriving DecidableEq, Repr

def installOutcome (success : Result) : Except Err Bool → Outcome
  | .error e => ⟨none, some e⟩
  | .ok false => ⟨some .compareAndSetLost, none⟩
  | .ok true => ⟨some success, none⟩

def failReconcile (intent : Intent) (held : Record) (cause : Err) : Program Outcome := do
  match ← Prog.perform (Op.failReconcile intent held cause) with
  | .error e => return ⟨none, some (cause ++ e)⟩
  | .ok true => return ⟨some .poisoned, some (.reconcileExhausted :: cause)⟩
  | .ok false => return ⟨none, some cause⟩

def snapshot (intent : Intent) (held : Record) : Program Outcome := do
  match ← Prog.perform (Op.snapshot intent held) with
  | .error e => failReconcile intent held e
  | .ok wire =>
    match validateSnapshot wire intent held with
    | .error e => return ⟨some .poisoned, some e⟩
    | .ok s =>
      let installed ← Prog.perform (Op.installSnapshot intent s held)
      return installOutcome .auditedSnapshot installed

def installReplay (fold : Fold) (historical : Bool) (intent : Intent) (records : List Record) :
    Program Outcome :=
  if historical then
    match records with
    -- A validated range has a first record.
    | [] => return ⟨none, some []⟩
    | record :: _ => do
      let installed ← Prog.perform (Op.installHistorical intent record)
      return installOutcome .duplicate installed
  else
    match foldRecords fold records with
    | .error e => return ⟨some .poisoned, some e⟩
    | .ok final => do
      let installed ← Prog.perform (Op.installReconcile intent records final)
      return installOutcome .applied installed

def replay (fold : Fold) (held : Record) (historical : Bool) (intent : Intent) :
    Program Outcome := do
  match ← Prog.perform (Op.replay intent held) with
  | .error e => if .unknownHistory ∈ e then snapshot intent held else failReconcile intent held e
  | .ok answer =>
    match validateReplay answer intent held with
    | .error e => return ⟨some .poisoned, some e⟩
    | .ok records => installReplay fold historical intent records

def newIntent (token : String) (fold : Fold) (held : Record) (historical : Bool) : Intent where
  token := token
  key := held.key
  observedVersion := fold.version
  requestedFrom := if historical then held.version else fold.version + 1
  requestedTo := held.version
  held := held.identity

def reconcile (fold : Fold) (held : Record) (historical : Bool) : Program Outcome := do
  let token ← Prog.perform Op.ids
  if ¬ isUuidv7 token then return ⟨some .poisoned, some [.invalid]⟩
  else
    match ← Prog.perform (Op.beginReconcile (newIntent token fold held historical) held) with
    | .error e => return ⟨none, some e⟩
    | .ok (_, false) => return ⟨some .compareAndSetLost, none⟩
    | .ok (intent, true) => replay fold held historical intent

/-! ## Apply -/

structure TransportGrant where
  serviceId : String
  capability : String
  role : String
  deriving DecidableEq, Repr

structure Principal where
  tenantId : String
  grant : TransportGrant
  deriving DecidableEq, Repr

def capabilityWrite : String := "Corex-participation-write"

def validTransportGrant (grant : TransportGrant) (capability : String) : Bool :=
  grant.serviceId ≠ "" && grant.role = "" && grant.capability = capability

def applyLoaded (record : Record) (fold : Fold) (retained : Option Identity) : Program Outcome :=
  if record.version ≤ fold.version then
    match retained with
    | none => reconcile fold record true
    | some identity =>
      if sameIdentity identity record.identity then return ⟨some .duplicate, none⟩
      else do
        match ← Prog.perform (Op.recordPoison record .divergentHistory) with
        | .error e => return ⟨some .poisoned, some e⟩
        | .ok () => return ⟨some .poisoned, some [.divergentHistory]⟩
  else if fold.version + 1 < record.version then reconcile fold record false
  else
    match foldRecords fold [record] with
    | .error e => return ⟨some .poisoned, some e⟩
    | .ok final => do
      let installed ← Prog.perform (Op.install fold.version [record] final)
      return installOutcome .applied installed

def applyRecord (record : Record) : Program Outcome := do
  match ← load record.key record.version with
  | .error e => return ⟨none, some e⟩
  | .ok (fold, retained) => applyLoaded record fold retained

def apply (principal : Principal) (command : ParticipationCommand) : Program Outcome :=
  match canonical command with
  | .error _ => return ⟨some .poisoned, some [.permissionDenied]⟩
  | .ok record =>
    if principal.tenantId ≠ command.tenantId ∨
        ¬ validTransportGrant principal.grant capabilityWrite then
      return ⟨some .poisoned, some [.permissionDenied]⟩
    else applyRecord record

/-! ## The consumer -/

structure Msg where
  subject : String
  data : Bytes
  msgId : String
  traceparent : String
  deriving DecidableEq

inductive Disposition where
  | ack
  | term
  | nak
  deriving DecidableEq, Repr

structure Consumer where
  grant : TransportGrant
  valid : grant.serviceId = "corex" ∧ validTransportGrant grant capabilityWrite = true

def participationCommandAddress (tenant interaction : String) : Option String :=
  if ¬ isUuidv7 tenant ∨ ¬ isUuidv7 interaction then none
  else some ("corex.participation.commands.v1." ++ tenant ++ "." ++ interaction)

def subjectMatchesPayload (subject : String) (c : ParticipationCommand) : Bool :=
  (Signaling.splitDot subject).length = 6 &&
    (Signaling.splitDot subject)[4]? = some c.tenantId &&
    (Signaling.splitDot subject)[5]? = some c.interactionId

section Handle

-- The decoder of the wire format: the command and the bytes of its unknown fields.
variable (unmarshal : Bytes → Option (ParticipationCommand × Bytes))

def envelope (m : Msg) : Option Record :=
  match unmarshal m.data with
  | none => none
  | some (command, unknown) =>
    match canonical command with
    | .error _ => none
    | .ok record =>
      match participationCommandAddress command.tenantId command.interactionId with
      | none => none
      | some wantSubject =>
        if unknown ≠ [] ∨ m.subject ≠ wantSubject ∨ m.msgId ≠ command.eventId ∨
            m.traceparent ≠ command.traceparent ∨ record.identity.body ≠ m.data ∨
            ¬ subjectMatchesPayload m.subject command then none
        else some record

def permanent (e : Err) : Bool :=
  e.any fun s => s ∈ [Sentinel.invalid, .permissionDenied, .divergentHistory, .reconcileExhausted]

def disposition (o : Outcome) : Disposition :=
  match o.err with
  | none => .ack
  | some e =>
    if o.result = some .compareAndSetLost then .ack
    else if permanent e then .term
    else .nak

def handle (consumer : Consumer) (m : Msg) : Program Disposition :=
  match envelope unmarshal m with
  | none => return .term
  | some record => do
    let outcome ← apply ⟨record.command.tenantId, consumer.grant⟩ record.command
    return disposition outcome

end Handle

end RelayPoint.Participation
