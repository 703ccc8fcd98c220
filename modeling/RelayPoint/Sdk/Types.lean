import Mathlib.Logic.Basic

/-!
# Types — the public surface of the client SDK

What the SDK hands to an application: facts of an interaction's log with their payload decoded, the
items of an agent's feed, and the states of a delivery.  Numbers of the SDK are integers here; the
sequence of a fact is far below `2 ^ 53`, up to which they are exact.
-/

namespace RelayPoint.Sdk

def schemaV1 : String :=
  "relaypoint.interaction.v1"

structure ChatPayload where
  text : String
  attachmentRefs : List String
deriving DecidableEq, Repr

inductive Payload where
  | chat (p : ChatPayload)
  | raw (data : List UInt8)
deriving DecidableEq, Repr

structure LogEvent where
  schema : String
  tenantId : String
  eventType : String
  eventId : String
  sequence : Int
  occurredAt : String
  actorId : String
  medium : String
  mediaProfile : Option String
  causedBy : Option String
  refId : Option String
  data : Payload
deriving DecidableEq, Repr

inductive DeliveryState where
  | live
  | replaying
  | degraded
  | failed
deriving DecidableEq, Repr

inductive AgentFeedItem where
  | event (interactionId : String) (event : LogEvent)
  | revoked (interactionId : String) (atSequence : Int)
  | control (control interactionId : String) (atSequence : Int)
deriving DecidableEq, Repr

/-- What ends a delivery: the gap that no replay could fill, and what the last replay threw. -/
structure DeliveryFailedError (ε : Type) where
  missingFrom : Int
  cause : Option ε
deriving DecidableEq, Repr

end RelayPoint.Sdk
