import RelayPoint.Participation.Command

/-!
# Message — delivery authorizations, receipts and the bytes that are hashed

A `DeliveryAuthorization` asks for the delivery of an interaction to a subscriber, and the service
answers with a `DeliveryReceipt`.  A request is recognised again by a hash of its known fields; what
the decoder did not know, in the message or in its deadline, is dropped first.

Times of the database are whole microseconds since the zero time of Go, the first instant of year 1.
-/

namespace RelayPoint.Delivery

open Wire
open Participation (Timestamp Digest isUuidv7 isHex matchAll)
open Signaling (utf8 putField)

/-! ## Messages -/

structure Content where
  deliveryAuthorizationId : String
  eventId : String
  tenantId : String
  reservationId : String
  interactionId : String
  targetSubscriberId : String
  fencingToken : String
  routeVersion : Nat
  deliveryDeadline : Option Timestamp
  traceparent : String
  deriving DecidableEq, Repr

/-- The message as it was decoded, with the bytes of unknown fields, its own and its deadline's. -/
structure DeliveryAuthorization where
  content : Content
  unknown : Bytes
  deadlineUnknown : Bytes
  deriving DecidableEq

inductive DeliveryVisibility where
  | unspecified
  | pendingNotVisible
  deriving DecidableEq, Repr

def DeliveryVisibility.number : DeliveryVisibility → Nat
  | .unspecified => 0
  | .pendingNotVisible => 1

structure DeliveryReceipt where
  receiptId : String
  deliveryAuthorizationId : String
  eventId : String
  tenantId : String
  reservationId : String
  interactionId : String
  targetSubscriberId : String
  acceptedAt : Timestamp
  deliveryDeadline : Option Timestamp
  logSequence : Nat
  issuerServiceId : String
  visibility : DeliveryVisibility
  deriving DecidableEq, Repr

def timestampNew (micros : Int) : Timestamp :=
  ⟨micros / 1000000 - 62135596800, micros % 1000000 * 1000⟩

/-! ## Validation -/

/-- The last two errors are of the database: a transaction that fails, and one whose rows a constraint
refuses.  The code does not tell them apart. -/
inductive Err where
  | unauthenticated
  | permissionDenied
  | invalidAuthorization (detail : String)
  | idempotencyConflict
  | unavailable
  | violation
  deriving DecidableEq, Repr

def traceparentPattern : List (Char → Bool) :=
  [(· == '0'), (· == '0'), (· == '-')] ++ List.replicate 32 isHex ++ [(· == '-')] ++
    List.replicate 16 isHex ++ [(· == '-'), (· == '0'), ['0', '1'].contains]

@[irreducible] def matchTraceparent (s : String) : Bool :=
  matchAll traceparentPattern s.toList

def requireUuidv7 (field value : String) : Option String :=
  if isUuidv7 value then none else some (field ++ " must be canonical UUIDv7")

def idFields (c : Content) : List (String × String) :=
  [("delivery_authorization_id", c.deliveryAuthorizationId), ("event_id", c.eventId),
    ("tenant_id", c.tenantId), ("reservation_id", c.reservationId),
    ("interaction_id", c.interactionId), ("target_subscriber_id", c.targetSubscriberId),
    ("fencing_token", c.fencingToken)]

def validateAuthorization (c : Content) : Except Err Unit :=
  match (idFields c).findSome? fun p => requireUuidv7 p.1 p.2 with
  | some detail => .error (.invalidAuthorization detail)
  | none =>
    if c.routeVersion = 0 then .error (.invalidAuthorization "route_version must be positive")
    else if ¬ c.deliveryDeadline.any Timestamp.checkValid then
      .error (.invalidAuthorization "valid delivery_deadline required")
    else if ¬ matchTraceparent c.traceparent then
      .error (.invalidAuthorization "canonical traceparent required")
    else .ok ()

/-- `normalizeAuthorization` drops the unknown fields.  It also rewrites the ids in canonical form,
which changes nothing: validation has refused any other form. -/
def normalizeAuthorization (a : DeliveryAuthorization) : DeliveryAuthorization :=
  { a with unknown := [], deadlineUnknown := [] }

theorem deadline_of_valid {c : Content} (h : validateAuthorization c = .ok ()) :
    ∃ t, c.deliveryDeadline = some t ∧ t.checkValid = true := by
  unfold validateAuthorization at h
  split at h
  · cases h
  · split at h
    · cases h
    · split at h
      · cases h
      · next hdeadline =>
          exact (Option.any_eq_true _ _).1 (by simpa using hdeadline)

/-! ## Encodings -/

def marshalDeadline (deadline : Option Timestamp) (unknown : Bytes) : Bytes :=
  match deadline with
  | none => []
  | some t => messageField 9 (t.marshal ++ unknown)

def DeliveryAuthorization.marshal (a : DeliveryAuthorization) : Bytes :=
  bytesField 1 (utf8 a.content.deliveryAuthorizationId) ++ (bytesField 2 (utf8 a.content.eventId) ++
    (bytesField 3 (utf8 a.content.tenantId) ++ (bytesField 4 (utf8 a.content.reservationId) ++
      (bytesField 5 (utf8 a.content.interactionId) ++
        (bytesField 6 (utf8 a.content.targetSubscriberId) ++
          (bytesField 7 (utf8 a.content.fencingToken) ++ (uintField 8 a.content.routeVersion ++
            (marshalDeadline a.content.deliveryDeadline a.deadlineUnknown ++
              (bytesField 10 (utf8 a.content.traceparent) ++ a.unknown)))))))))

def DeliveryReceipt.marshal (r : DeliveryReceipt) : Bytes :=
  bytesField 1 (utf8 r.receiptId) ++ (bytesField 2 (utf8 r.deliveryAuthorizationId) ++
    (bytesField 3 (utf8 r.eventId) ++ (bytesField 4 (utf8 r.tenantId) ++
      (bytesField 5 (utf8 r.reservationId) ++ (bytesField 6 (utf8 r.interactionId) ++
        (bytesField 7 (utf8 r.targetSubscriberId) ++ (messageField 8 r.acceptedAt.marshal ++
          (marshalDeadline r.deliveryDeadline [] ++ (uintField 10 r.logSequence ++
            (bytesField 11 (utf8 r.issuerServiceId) ++
              (uintField 12 r.visibility.number ++ [])))))))))))

def Content.body (c : Content) : Bytes :=
  (normalizeAuthorization ⟨c, [], []⟩).marshal

theorem begins_marshalDeadline {t : Option Timestamp} {u b : Bytes} (hb : Begins 9 b) :
    Begins 8 (marshalDeadline t u ++ b) := by
  cases t with
  | none => exact hb.mono (by omega)
  | some t => exact begins_messageField (by omega) (by omega)

theorem Content.body_inj {c d : Content} (hc : validateAuthorization c = .ok ())
    (hd : validateAuthorization d = .ok ()) (h : c.body = d.body) : c = d := by
  rcases deadline_of_valid hc with ⟨s, hs, hsv⟩
  rcases deadline_of_valid hd with ⟨t, ht, htv⟩
  simp only [Content.body, normalizeAuthorization, DeliveryAuthorization.marshal, hs, ht] at h
  -- What follows field `k` starts with the tag of a later field.
  have b9 : ∀ s, Begins 9 (bytesField 10 s ++ []) := fun s =>
    begins_bytesField (by omega) (by omega) (begins_nil 10)
  have b8 : ∀ t s, Begins 8 (marshalDeadline (some t) [] ++ (bytesField 10 s ++ [])) := fun t s =>
    begins_marshalDeadline (b9 s)
  have b7 : ∀ n t s, Begins 7 (uintField 8 n ++ (marshalDeadline (some t) [] ++
      (bytesField 10 s ++ []))) := fun n t s => begins_uintField (by omega) (by omega) (b8 t s)
  have b6 : ∀ {p b}, Begins 7 b → Begins 6 (bytesField 7 p ++ b) :=
    fun hb => begins_bytesField (by omega) (by omega) hb
  have b5 : ∀ {p b}, Begins 6 b → Begins 5 (bytesField 6 p ++ b) :=
    fun hb => begins_bytesField (by omega) (by omega) hb
  have b4 : ∀ {p b}, Begins 5 b → Begins 4 (bytesField 5 p ++ b) :=
    fun hb => begins_bytesField (by omega) (by omega) hb
  have b3 : ∀ {p b}, Begins 4 b → Begins 3 (bytesField 4 p ++ b) :=
    fun hb => begins_bytesField (by omega) (by omega) hb
  have b2 : ∀ {p b}, Begins 3 b → Begins 2 (bytesField 3 p ++ b) :=
    fun hb => begins_bytesField (by omega) (by omega) hb
  have b1 : ∀ {p b}, Begins 2 b → Begins 1 (bytesField 2 p ++ b) :=
    fun hb => begins_bytesField (by omega) (by omega) hb
  rcases bytesField_append_inj (by omega) (b1 (b2 (b3 (b4 (b5 (b6 (b7 _ _ _)))))))
    (b1 (b2 (b3 (b4 (b5 (b6 (b7 _ _ _))))))) h with ⟨h1, h⟩
  rcases bytesField_append_inj (by omega) (b2 (b3 (b4 (b5 (b6 (b7 _ _ _))))))
    (b2 (b3 (b4 (b5 (b6 (b7 _ _ _)))))) h with ⟨h2, h⟩
  rcases bytesField_append_inj (by omega) (b3 (b4 (b5 (b6 (b7 _ _ _)))))
    (b3 (b4 (b5 (b6 (b7 _ _ _))))) h with ⟨h3, h⟩
  rcases bytesField_append_inj (by omega) (b4 (b5 (b6 (b7 _ _ _)))) (b4 (b5 (b6 (b7 _ _ _)))) h with
    ⟨h4, h⟩
  rcases bytesField_append_inj (by omega) (b5 (b6 (b7 _ _ _))) (b5 (b6 (b7 _ _ _))) h with ⟨h5, h⟩
  rcases bytesField_append_inj (by omega) (b6 (b7 _ _ _)) (b6 (b7 _ _ _)) h with ⟨h6, h⟩
  rcases bytesField_append_inj (by omega) (b7 _ _ _) (b7 _ _ _) h with ⟨h7, h⟩
  rcases uintField_append_inj (by omega) (b8 _ _) (b8 _ _) h with ⟨h8, h⟩
  rcases messageField_append_inj h with ⟨h9, h⟩
  have h9 : s = t := Timestamp.marshal_inj hsv htv (by simpa using h9)
  have h10 := (bytesField_append_inj (by omega) (begins_nil 10) (begins_nil 10) h).1
  have h1 := Participation.utf8_inj h1
  have h2 := Participation.utf8_inj h2
  have h3 := Participation.utf8_inj h3
  have h4 := Participation.utf8_inj h4
  have h5 := Participation.utf8_inj h5
  have h6 := Participation.utf8_inj h6
  have h7 := Participation.utf8_inj h7
  have h10 := Participation.utf8_inj h10
  cases c
  cases d
  simp_all

/-! ## Hashes -/

def acceptDeliveryMethod : String := "/relaypoint.delivery.v1.DeliveryService/AcceptDelivery"

def acknowledgeDeliveryMethod : String :=
  "/kafaconnect.routing.v1.ReservationService/AcknowledgeDelivery"

def sha256 (b : Bytes) : Digest :=
  ⟨Sha256.sum256 b, Sha256.length_sum256 b⟩

def Content.requestBytes (c : Content) : Bytes :=
  putField (utf8 acceptDeliveryMethod) ++ putField (utf8 c.tenantId) ++ putField c.body

def authorizationHash (c : Content) : Digest :=
  sha256 c.requestBytes

theorem Content.requestBytes_inj {c d : Content} (hc : validateAuthorization c = .ok ())
    (hd : validateAuthorization d = .ok ()) (htenant : c.tenantId = d.tenantId)
    (h : c.requestBytes = d.requestBytes) : c = d := by
  unfold Content.requestBytes at h
  rw [htenant] at h
  have hfield : putField c.body = putField d.body := List.append_cancel_left h
  have hbody := (List.append_inj hfield (by simp [Sha256.length_bigEndian])).2
  exact Content.body_inj hc hd hbody

structure AcknowledgeRequest where
  requestId : String
  tenantId : String
  reservationId : String
  interactionId : String
  expectedRouteVersion : Nat
  fencingToken : String
  receipt : DeliveryReceipt
  deriving DecidableEq

def AcknowledgeRequest.hash (r : AcknowledgeRequest) : Digest :=
  sha256 (putField (utf8 acknowledgeDeliveryMethod) ++ putField (utf8 r.tenantId) ++
    putField (utf8 r.requestId) ++ putField (utf8 r.reservationId) ++
    putField (utf8 r.interactionId) ++ putField (Sha256.bigEndian 8 r.expectedRouteVersion) ++
    putField (utf8 r.fencingToken) ++ putField r.receipt.marshal)

end RelayPoint.Delivery
