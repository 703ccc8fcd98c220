import RelayPoint.Data.Sha256

/-!
# Envelope — the wire types of the signaling plane and the authenticated identity

`Event` is the authoritative fact of an interaction log, `Command` a client's intent and
`CommandResult` the reply to it.  Protobuf encoding is not modelled: a log holds `Event` values, and
a command arrives as the outcome of decoding its bytes.  `Event.media_profile` is written by no
function of the router or the projector and is left out.
-/

namespace RelayPoint.Signaling

/-! ## Wire types -/

structure Event where
  schema : String
  eventType : String
  eventId : String
  sequence : Int
  occurredAt : Nat
  tenantId : String
  actorId : String
  medium : String
  commandId : String
  payloadHash : String
  causedBy : String
  refId : String
  data : List UInt8
  commandedBy : String
  reason : String
  requestId : String
  deriving DecidableEq, Repr

structure Command where
  commandId : String
  tenantId : String
  actorId : String
  type : String
  medium : String
  refId : String
  data : List UInt8
  deriving DecidableEq, Repr

inductive Status where
  | unspecified
  | accepted
  | rejected
  deriving DecidableEq, Repr

structure CommandResult where
  commandId : String
  status : Status
  causedBy : String
  reason : String
  deriving DecidableEq, Repr

def schemaV1 : String := "relaypoint.interaction.v1"

def rejected (commandId reason : String) : CommandResult :=
  { commandId := commandId, status := .rejected, causedBy := "", reason := reason }

def accepted (commandId : String) : CommandResult :=
  { commandId := commandId, status := .accepted, causedBy := commandId, reason := "" }

@[simp] theorem rejected_status (c r : String) : (rejected c r).status = .rejected :=
  rfl

@[simp] theorem rejected_reason (c r : String) : (rejected c r).reason = r :=
  rfl

@[simp] theorem accepted_status (c : String) : (accepted c).status = .accepted :=
  rfl

/-! ## Identity -/

def roleTrustedBackend : String := "trusted-backend"

def capabilityAgentFeed : String := "agent-feed"

def capabilityAgentFeedAdminOperationObserver : String := "agent-feed-admin-operation-observer"

/-- What the transport authenticated; all fields empty means unauthenticated.  The fields that only
bound a visitor's credential (`ConversationID`, `ExpiresAt`) are not read by the router. -/
structure Identity where
  tenantId : String
  userId : String
  role : String
  capability : String
  deriving DecidableEq, Repr

def isAuthenticated (id : Identity) : Bool :=
  id.userId ≠ "" || id.role ≠ "" || id.capability ≠ ""

def isSubscriberCapability (capability : String) : Bool :=
  capability = capabilityAgentFeed || capability = capabilityAgentFeedAdminOperationObserver

/-! ## Command and fact types -/

def isParticipationCommand (t : String) : Bool :=
  t = "participant.assign" || t = "participant.unassign" || t = "participant.transfer"

def isParticipationFact (t : String) : Bool :=
  t = "participant.joined" || t = "participant.left"

/-! ## Payload hash -/

def utf8 (s : String) : List UInt8 :=
  s.toUTF8.data.toList

def putField (b : List UInt8) : List UInt8 :=
  Sha256.bigEndian 8 b.length ++ b

/-- The bytes that are hashed for a command; the command id and the interaction are not among
them. -/
def payloadBytes (c : Command) : List UInt8 :=
  putField (utf8 c.tenantId) ++ putField (utf8 c.actorId) ++ putField (utf8 c.type) ++
    putField (utf8 c.medium) ++ putField (utf8 c.refId) ++ putField c.data

def hashPayload (c : Command) : String :=
  Sha256.encodeToString (Sha256.sum256 (payloadBytes c))

theorem hashPayload_ne_empty (c : Command) : hashPayload c ≠ "" :=
  Sha256.encodeToString_sum256_ne _

/-! ## Subjects and keys -/

def splitDot (s : String) : List String :=
  (s.toList.splitOn '.').map String.ofList

def parseCmdSubject (s : String) : Option (String × String × String) :=
  match splitDot s with
  | [p0, tenant, p2, iid, p4, identity] =>
    if p0 ≠ "tenant" ∨ p2 ≠ "interaction" ∨ p4 ≠ "cmd" then none
    else if tenant = "" ∨ iid = "" ∨ identity = "" then none
    else some (tenant, iid, identity)
  | _ => none

def logSubjectFor (tenant iid : String) : String :=
  "tenant." ++ tenant ++ ".interaction." ++ iid ++ ".log"

def stateKey (tenant iid : String) : String :=
  tenant ++ "/" ++ iid

def dedupID (tenant iid commandId : String) : String :=
  tenant ++ "." ++ iid ++ "." ++ commandId

def orDefault (v d : String) : String :=
  if v = "" then d else v

end RelayPoint.Signaling
