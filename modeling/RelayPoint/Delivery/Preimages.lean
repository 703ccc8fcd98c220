import RelayPoint.Data.Framed
import RelayPoint.Delivery.Message

/-!
# Preimages — the bytes behind the hashes that recognise a request

The router, the delivery service and the acknowledgement worker recognise a repeated request by a
SHA-256 hash.  What they hash is a sequence of framed parts, so as far as the hash does not collide a
hash stands for one request:

* `payloadBytes_eq` — the router hashes six fields of a command;
* `AcknowledgeRequest.hashedBytes` — the worker hashes the method, the fields of the request and the
  encoded receipt;
* `DeliveryAuthorization.hashedBytes` — the service hashes its own method, the tenant and the encoded
  authorization, so that no request of the worker is taken for one of the service.
-/

namespace RelayPoint.Delivery

open Wire Framed
open Signaling (Command utf8 putField payloadBytes)

/-! ## Commands -/

def commandParts (c : Command) : List Bytes :=
  [utf8 c.tenantId, utf8 c.actorId, utf8 c.type, utf8 c.medium, utf8 c.refId, c.data]

theorem payloadBytes_eq (c : Command) : payloadBytes c = framed (commandParts c) := by
  simp [payloadBytes, commandParts, putField, part]

/-! ## Requests of the worker -/

def AcknowledgeRequest.hashedBytes (r : AcknowledgeRequest) (receipt : Bytes) : Bytes :=
  putField (utf8 acknowledgeDeliveryMethod) ++ putField (utf8 r.tenantId) ++
    putField (utf8 r.requestId) ++ putField (utf8 r.reservationId) ++
    putField (utf8 r.interactionId) ++ putField (Sha256.bigEndian 8 r.expectedRouteVersion) ++
    putField (utf8 r.fencingToken) ++ putField receipt

theorem AcknowledgeRequest.hash_eq (r : AcknowledgeRequest) :
    r.hash = sha256 (r.hashedBytes r.receipt.marshal) :=
  rfl

def AcknowledgeRequest.parts (r : AcknowledgeRequest) (receipt : Bytes) : List Bytes :=
  [utf8 r.tenantId, utf8 r.requestId, utf8 r.reservationId, utf8 r.interactionId,
    Sha256.bigEndian 8 r.expectedRouteVersion, utf8 r.fencingToken, receipt]

theorem AcknowledgeRequest.hashedBytes_eq (r : AcknowledgeRequest) (receipt : Bytes) :
    r.hashedBytes receipt = part (utf8 acknowledgeDeliveryMethod) ++ framed (r.parts receipt) := by
  simp [hashedBytes, AcknowledgeRequest.parts, putField, part]

/-! ## Requests to the service -/

/-- What `authorizationHashAndBody` writes before it hashes, for any authorization. -/
def DeliveryAuthorization.hashedBytes (a : DeliveryAuthorization) : Bytes :=
  putField (utf8 acceptDeliveryMethod) ++ putField (utf8 a.content.tenantId) ++ putField a.marshal

theorem requestBytes_eq (a : DeliveryAuthorization) :
    a.content.requestBytes = (normalizeAuthorization a).hashedBytes :=
  rfl

theorem DeliveryAuthorization.hashedBytes_eq (a : DeliveryAuthorization) :
    a.hashedBytes = part (utf8 acceptDeliveryMethod) ++ framed [utf8 a.content.tenantId, a.marshal] := by
  simp [hashedBytes, putField, part]

theorem method_fits : Fits (utf8 acknowledgeDeliveryMethod) ∧ Fits (utf8 acceptDeliveryMethod) := by
  decide +kernel

theorem method_ne : utf8 acknowledgeDeliveryMethod ≠ utf8 acceptDeliveryMethod := by
  decide +kernel

/-! ## What the bytes determine -/

theorem payloadBytes_inj {c d : Command} (hc : ∀ b ∈ commandParts c, Fits b)
    (hd : ∀ b ∈ commandParts d, Fits b) (h : payloadBytes c = payloadBytes d) :
    c.tenantId = d.tenantId ∧ c.actorId = d.actorId ∧ c.type = d.type ∧ c.medium = d.medium ∧
      c.refId = d.refId ∧ c.data = d.data := by
  rw [payloadBytes_eq, payloadBytes_eq] at h
  have hparts := framed_inj hc hd h
  simp only [commandParts, List.cons.injEq, and_true] at hparts
  rcases hparts with ⟨htenant, hactor, htype, hmedium, href, hdata⟩
  exact ⟨Participation.utf8_inj htenant, Participation.utf8_inj hactor, Participation.utf8_inj htype,
    Participation.utf8_inj hmedium, Participation.utf8_inj href, hdata⟩

theorem AcknowledgeRequest.hashedBytes_inj {r s : AcknowledgeRequest} {b c : Bytes}
    (hr : ∀ p ∈ r.parts b, Fits p) (hs : ∀ p ∈ s.parts c, Fits p)
    (hrv : r.expectedRouteVersion < 2 ^ 64) (hsv : s.expectedRouteVersion < 2 ^ 64)
    (h : r.hashedBytes b = s.hashedBytes c) :
    r.tenantId = s.tenantId ∧ r.requestId = s.requestId ∧ r.reservationId = s.reservationId ∧
      r.interactionId = s.interactionId ∧ r.expectedRouteVersion = s.expectedRouteVersion ∧
      r.fencingToken = s.fencingToken ∧ b = c := by
  rw [hashedBytes_eq, hashedBytes_eq] at h
  have hparts := framed_inj hr hs (part_append_inj method_fits.1 method_fits.1 h).2
  simp only [AcknowledgeRequest.parts, List.cons.injEq, and_true] at hparts
  rcases hparts with ⟨htenant, hrequest, hreservation, hinteraction, hversion, htoken, hreceipt⟩
  exact ⟨Participation.utf8_inj htenant, Participation.utf8_inj hrequest,
    Participation.utf8_inj hreservation, Participation.utf8_inj hinteraction,
    bigEndian_inj hrv hsv hversion, Participation.utf8_inj htoken, hreceipt⟩

theorem hashedBytes_ne (r : AcknowledgeRequest) (receipt : Bytes) (a : DeliveryAuthorization) :
    r.hashedBytes receipt ≠ a.hashedBytes := by
  intro h
  exact method_ne (part_append_inj method_fits.1 method_fits.2 h).1

/-- The bytes that are hashed determine the fields they were made from, as long as no field is of
`2 ^ 64` bytes or more, and the requests of the worker are apart from those to the service. -/
theorem preimages_determine_requests :
    (∀ c d : Command, (∀ b ∈ commandParts c, Fits b) → (∀ b ∈ commandParts d, Fits b) →
      payloadBytes c = payloadBytes d →
      c.tenantId = d.tenantId ∧ c.actorId = d.actorId ∧ c.type = d.type ∧ c.medium = d.medium ∧
        c.refId = d.refId ∧ c.data = d.data) ∧
    (∀ (r s : AcknowledgeRequest) (b c : Bytes), (∀ p ∈ r.parts b, Fits p) →
      (∀ p ∈ s.parts c, Fits p) → r.expectedRouteVersion < 2 ^ 64 →
      s.expectedRouteVersion < 2 ^ 64 → r.hashedBytes b = s.hashedBytes c →
      r.tenantId = s.tenantId ∧ r.requestId = s.requestId ∧ r.reservationId = s.reservationId ∧
        r.interactionId = s.interactionId ∧ r.expectedRouteVersion = s.expectedRouteVersion ∧
        r.fencingToken = s.fencingToken ∧ b = c) ∧
    ∀ (r : AcknowledgeRequest) (receipt : Bytes) (a : DeliveryAuthorization),
      r.hashedBytes receipt ≠ a.hashedBytes := by
  refine ⟨?_, ?_, hashedBytes_ne⟩
  · intro c d hc hd
    exact payloadBytes_inj hc hd
  · intro r s b c hr hs hrv hsv
    exact AcknowledgeRequest.hashedBytes_inj hr hs hrv hsv

/-- Two commands, the data of one of which imitates a frame: their bytes differ. -/
theorem preimages_determine_requests_imitation :
    let c : Command := ⟨"c", "t", "a", "chat", "", "", [0, 0, 0, 0, 0, 0, 0, 0]⟩
    let d : Command := ⟨"c", "t", "a", "chat", "", "", []⟩
    payloadBytes c ≠ payloadBytes d := by
  intro c d h
  have hfields := preimages_determine_requests.1 c d (by decide +kernel) (by decide +kernel) h
  exact absurd hfields.2.2.2.2.2 (by decide)

end RelayPoint.Delivery
