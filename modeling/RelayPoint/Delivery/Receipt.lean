import RelayPoint.Data.Protobuf
import RelayPoint.Delivery.Store
import RelayPoint.RouteProjection.Fact

/-!
# Receipt — the receipts of the outbox, read back

The outbox keeps a receipt as the bytes of its encoding, and a worker decodes them again.
`unmarshalReceipt` is the decoder, and `unmarshalReceipt_marshal` says that it returns the receipt
that was encoded.

The decoder of the service also takes receipts without a time of acceptance and with other values of
the visibility.  The outbox holds none, and they are refused here.
-/

namespace RelayPoint.Delivery

open Protobuf Wire
open Participation (Timestamp isUuidv7)
open Signaling (utf8)

/-! ## Decoder -/

def timestampSchema : Schema := fun k =>
  [(1, Kind.varint), (2, .varint)].lookup k

def receiptSchema : Schema := fun k =>
  [(1, Kind.text), (2, .text), (3, .text), (4, .text), (5, .text), (6, .text), (7, .text), (8, .bytes),
    (9, .bytes), (10, .varint), (11, .text), (12, .varint)].lookup k

def unmarshalTimestamp (b : Bytes) : Option Timestamp :=
  (fromBinary .strict timestampSchema b).map fun es => ⟨int64 (varintAt 1 es), int32 (varintAt 2 es)⟩

/-- The time in field `k`, if the field is there.  Repeated occurrences of a submessage are merged,
which is what reading their concatenation does. -/
def timestampAt (k : Nat) (es : List Entry) : Option (Option Timestamp) :=
  if valuesAt Value.bytes? k es = [] then some none
  else (unmarshalTimestamp (valuesAt Value.bytes? k es).flatten).map some

def DeliveryVisibility.ofNumber : Nat → Option DeliveryVisibility
  | 0 => some .unspecified
  | 1 => some .pendingNotVisible
  | _ => none

def receiptOf (es : List Entry) : Option DeliveryReceipt :=
  match timestampAt 8 es, timestampAt 9 es, DeliveryVisibility.ofNumber (varintAt 12 es) with
  | some (some acceptedAt), some deliveryDeadline, some visibility =>
    some {
      receiptId := textAt 1 es
      deliveryAuthorizationId := textAt 2 es
      eventId := textAt 3 es
      tenantId := textAt 4 es
      reservationId := textAt 5 es
      interactionId := textAt 6 es
      targetSubscriberId := textAt 7 es
      acceptedAt := acceptedAt
      deliveryDeadline := deliveryDeadline
      logSequence := varintAt 10 es
      issuerServiceId := textAt 11 es
      visibility := visibility }
  | _, _, _ => none

def unmarshalReceipt (b : Bytes) : Option DeliveryReceipt :=
  (fromBinary .strict receiptSchema b).bind receiptOf

/-! ## Entries -/

def timestampEntries (t : Timestamp) : List Entry :=
  varintEntry 1 (twosComplement t.seconds) ++ varintEntry 2 (twosComplement t.nanos)

def deadlineEntries (deadline : Option Timestamp) : List Entry :=
  deadline.elim [] fun t => messageEntry 9 (timestampEntries t)

def receiptEntries (r : DeliveryReceipt) : List Entry :=
  textEntry 1 r.receiptId ++ (textEntry 2 r.deliveryAuthorizationId ++ (textEntry 3 r.eventId ++
    (textEntry 4 r.tenantId ++ (textEntry 5 r.reservationId ++ (textEntry 6 r.interactionId ++
      (textEntry 7 r.targetSubscriberId ++ (messageEntry 8 (timestampEntries r.acceptedAt) ++
        (deadlineEntries r.deliveryDeadline ++ (varintEntry 10 r.logSequence ++
          (textEntry 11 r.issuerServiceId ++ varintEntry 12 r.visibility.number))))))))))

theorem marshal_timestamp (t : Timestamp) : t.marshal = encode (timestampEntries t) := by
  simp only [Timestamp.marshal, timestampEntries, encode_append, encode_varintEntry (show 1 < 16 by omega),
    encode_varintEntry (show 2 < 16 by omega), List.append_nil]

theorem marshal_deadline (deadline : Option Timestamp) :
    marshalDeadline deadline [] = encode (deadlineEntries deadline) := by
  cases deadline with
  | none => rfl
  | some t =>
    simp only [marshalDeadline, deadlineEntries, Option.elim_some, List.append_nil, marshal_timestamp,
      encode_messageEntry (show 9 < 16 by omega)]

theorem marshal_receipt (r : DeliveryReceipt) : r.marshal = encode (receiptEntries r) := by
  have htext : ∀ k < 16, ∀ s, bytesField k (utf8 s) = encode (textEntry k s) :=
    fun k hk s => (encode_textEntry hk s).symm
  have hvarint : ∀ k < 16, ∀ n, uintField k n = encode (varintEntry k n) :=
    fun k hk n => (encode_varintEntry hk n).symm
  simp only [DeliveryReceipt.marshal, receiptEntries, encode_append, marshal_timestamp, marshal_deadline,
    encode_messageEntry (show 8 < 16 by omega)]
  simp [htext, hvarint]

/-! ## Reading back -/

def InRange (t : Timestamp) : Prop :=
  (-2 ^ 63 ≤ t.seconds ∧ t.seconds < 2 ^ 63) ∧ -2 ^ 31 ≤ t.nanos ∧ t.nanos < 2 ^ 31

theorem allFit_timestampEntries (t : Timestamp) : AllFit timestampSchema (timestampEntries t) :=
  allFit_append.2 ⟨allFit_varintEntry (by decide) rfl (twosComplement_lt _),
    allFit_varintEntry (by decide) rfl (twosComplement_lt _)⟩

theorem unmarshalTimestamp_encode {t : Timestamp} (ht : InRange t)
    (hlen : (encode (timestampEntries t)).length < 2 ^ 32) :
    unmarshalTimestamp (encode (timestampEntries t)) = some t := by
  have hknown : ∀ k < 3, 0 < k → (timestampSchema k).isSome = true := by decide
  simp only [unmarshalTimestamp, fromBinary_encode _ (allFit_timestampEntries t) hlen, varintAt]
  simp [valuesAt_known, hknown, timestampEntries, valuesAt_varintEntry_ne, int64_twosComplement ht.1,
    int32_twosComplement ht.2]

structure DeliveryReceipt.Encodable (r : DeliveryReceipt) : Prop where
  acceptedAt : InRange r.acceptedAt
  deadline : ∀ t ∈ r.deliveryDeadline, InRange t
  sequence : r.logSequence < 2 ^ 64
  length : r.marshal.length < 2 ^ 32

section Encodable

variable {r : DeliveryReceipt} (h : r.Encodable)
include h

theorem allFit_receiptEntries : AllFit receiptSchema (receiptEntries r) := by
  have hdeadline : AllFit receiptSchema (deadlineEntries r.deliveryDeadline) := by
    cases r.deliveryDeadline with
    | none => exact List.forall_mem_nil _
    | some t => exact allFit_messageEntry (by decide) rfl _
  have hsequence : AllFit receiptSchema (varintEntry 10 r.logSequence) :=
    allFit_varintEntry (by decide) rfl h.sequence
  have hvisibility : AllFit receiptSchema (varintEntry 12 r.visibility.number) := by
    refine allFit_varintEntry (by decide) rfl ?_
    cases r.visibility with
    | unspecified => exact (by decide : 0 < 2 ^ 64)
    | pendingNotVisible => exact (by decide : 1 < 2 ^ 64)
  have htext : ∀ k ∈ [1, 2, 3, 4, 5, 6, 7, 11], ∀ s, AllFit receiptSchema (textEntry k s) := by
    intro k hk s
    have hkind : ∀ k ∈ [1, 2, 3, 4, 5, 6, 7, 11],
        (0 < k ∧ k < 2 ^ 29) ∧ (receiptSchema k).getD .text = .text := by decide
    exact allFit_textEntry (hkind k hk).1 (hkind k hk).2 s
  have hmessage : AllFit receiptSchema (messageEntry 8 (timestampEntries r.acceptedAt)) :=
    allFit_messageEntry (by decide) rfl _
  simp [receiptEntries, htext, hdeadline, hsequence, hvisibility, hmessage]

omit h in
theorem isSome_receiptSchema : ∀ k < 13, 0 < k → (receiptSchema k).isSome = true := by
  decide

theorem length_submessage (k : Nat) (es : List Entry)
    (hmem : (k, Value.bytes (encode es)) ∈ receiptEntries r) : (encode es).length < 2 ^ 32 := by
  have hlen := h.length
  rw [marshal_receipt] at hlen
  exact (allFit_receiptEntries h _ hmem).sized hmem hlen

theorem timestampAt_acceptedAt :
    timestampAt 8 (known receiptSchema (receiptEntries r)) = some (some r.acceptedAt) := by
  have hvalues : valuesAt Value.bytes? 8 (known receiptSchema (receiptEntries r)) =
      [encode (timestampEntries r.acceptedAt)] := by
    have hdeadline : valuesAt Value.bytes? 8 (deadlineEntries r.deliveryDeadline) = [] := by
      cases r.deliveryDeadline with
      | none => rfl
      | some t => exact valuesAt_messageEntry_ne (by omega) _
    rw [valuesAt_known rfl]
    simp [receiptEntries, valuesAt_textEntry_ne, valuesAt_varintEntry_ne, hdeadline]
  have hlen := length_submessage h 8 (timestampEntries r.acceptedAt)
    (by simp [receiptEntries, messageEntry])
  simp [timestampAt, hvalues, unmarshalTimestamp_encode h.acceptedAt hlen]

theorem timestampAt_deadline :
    timestampAt 9 (known receiptSchema (receiptEntries r)) = some r.deliveryDeadline := by
  have hvalues : valuesAt Value.bytes? 9 (known receiptSchema (receiptEntries r)) =
      r.deliveryDeadline.elim [] fun t => [encode (timestampEntries t)] := by
    have hdeadline : valuesAt Value.bytes? 9 (deadlineEntries r.deliveryDeadline) =
        r.deliveryDeadline.elim [] fun t => [encode (timestampEntries t)] := by
      cases r.deliveryDeadline with
      | none => rfl
      | some t => exact valuesAt_messageEntry 9 _
    rw [valuesAt_known rfl]
    simp [receiptEntries, valuesAt_textEntry_ne, valuesAt_varintEntry_ne, valuesAt_messageEntry_ne, hdeadline]
  cases hd : r.deliveryDeadline with
  | none => simp [timestampAt, hvalues, hd]
  | some t =>
    have hlen := length_submessage h 9 (timestampEntries t)
      (by simp [receiptEntries, deadlineEntries, messageEntry, hd])
    simp [timestampAt, hvalues, hd, unmarshalTimestamp_encode (h.deadline t hd) hlen]

theorem unmarshalReceipt_marshal : unmarshalReceipt r.marshal = some r := by
  have hlen := h.length
  rw [marshal_receipt] at hlen ⊢
  have hdeadline : ∀ {α : Type} (f : Value → Option α) (k : Nat), k ≠ 9 →
      valuesAt f k (deadlineEntries r.deliveryDeadline) = [] := by
    intro α f k hk
    cases r.deliveryDeadline with
    | none => rfl
    | some t => exact valuesAt_messageEntry_ne (Ne.symm hk) _
  have hvisibility : DeliveryVisibility.ofNumber r.visibility.number = some r.visibility := by
    cases r.visibility <;> rfl
  simp only [unmarshalReceipt, fromBinary_encode _ (allFit_receiptEntries h) hlen, Option.bind_some, receiptOf,
    timestampAt_acceptedAt h, timestampAt_deadline h, textAt, varintAt]
  simp [valuesAt_known, isSome_receiptSchema, receiptEntries, valuesAt_textEntry_ne, valuesAt_varintEntry_ne,
    valuesAt_messageEntry_ne, hdeadline, hvisibility]

end Encodable

/-! ## The receipts of accepted requests -/

theorem length_of_matchAll {ps : List (Char → Bool)} :
    ∀ {cs : List Char}, Participation.matchAll ps cs = true → cs.length = ps.length := by
  induction ps with
  | nil =>
    intro cs h
    cases cs with
    | nil => rfl
    | cons => cases h
  | cons p ps ih =>
    intro cs h
    cases cs with
    | nil => cases h
    | cons c cs =>
      have hrest : Participation.matchAll ps cs = true := (Bool.and_eq_true_iff.1 h).2
      simp [ih hrest]

theorem length_utf8_of_isUuidv7 {s : String} (h : isUuidv7 s = true) : (utf8 s).length ≤ 144 := by
  unfold isUuidv7 at h
  have hlen : s.toList.length = 36 := length_of_matchAll h
  have hbytes := length_textBytes s
  rw [hlen] at hbytes
  exact hbytes

theorem length_bytesField_le (k : Nat) {b : Bytes} (h : b.length ≤ 144) : (bytesField k b).length ≤ 155 := by
  have hvarint := length_varint (n := b.length) (by omega)
  unfold bytesField
  split
  · exact Nat.zero_le _
  · simp only [messageField, List.length_cons, List.length_append]
    omega

theorem length_uintField_le (k : Nat) {n : Nat} (h : n < 2 ^ 64) : (uintField k n).length ≤ 11 := by
  have hvarint := length_varint h
  unfold uintField
  split
  · exact Nat.zero_le _
  · simp only [List.length_cons]
    omega

theorem length_timestamp_le (k : Nat) (t : Timestamp) : (messageField k t.marshal).length ≤ 33 := by
  have hseconds := length_uintField_le 1 (twosComplement_lt t.seconds)
  have hnanos := length_uintField_le 2 (twosComplement_lt t.nanos)
  have hmarshal : t.marshal.length ≤ 22 := by
    simp only [Timestamp.marshal, List.length_append, List.length_nil]
    omega
  have hvarint := length_varint (n := t.marshal.length) (by omega)
  simp only [messageField, List.length_cons, List.length_append]
  omega

theorem isUuidv7_of_valid {c : Content} (h : validateAuthorization c = .ok ()) :
    ∀ p ∈ idFields c, isUuidv7 p.2 = true := by
  intro p hp
  unfold validateAuthorization at h
  split at h
  · cases h
  · next hnone =>
      have hfield := List.findSome?_eq_none_iff.1 hnone p hp
      simp only [requireUuidv7] at hfield
      split at hfield
      · next hid => exact hid
      · cases hfield

theorem inRange_of_checkValid {t : Timestamp} (h : t.checkValid = true) : InRange t := by
  simp only [Timestamp.checkValid, Bool.and_eq_true, decide_eq_true_eq] at h
  unfold InRange
  omega

def DatabaseTime (micros : Int) : Prop :=
  -2 ^ 63 ≤ micros ∧ micros < 2 ^ 63
  deriving Decidable

theorem inRange_timestampNew {micros : Int} (h : DatabaseTime micros) : InRange (timestampNew micros) := by
  unfold InRange timestampNew
  unfold DatabaseTime at h
  dsimp only
  omega

structure Stored (input : AppendInput) (result : AppendResult) : Prop where
  valid : validateAuthorization input.authorization = .ok ()
  receiptId : isUuidv7 result.receiptId = true
  issuer : (utf8 input.issuerService).length ≤ 144
  acceptedAt : DatabaseTime result.acceptedAt
  sequence : result.logSequence < 2 ^ 63

theorem Stored.encodable {input : AppendInput} {result : AppendResult} (h : Stored input result) :
    (receiptFromAppend input result).Encodable := by
  rcases deadline_of_valid h.valid with ⟨t, ht, htv⟩
  have hids := isUuidv7_of_valid h.valid
  simp only [idFields, List.forall_mem_cons] at hids
  rcases hids with ⟨hauthorization, hevent, htenant, hreservation, hinteraction, htarget, -⟩
  have hid : ∀ (k : Nat) {s : String}, isUuidv7 s = true → (bytesField k (utf8 s)).length ≤ 155 :=
    fun k _ hs => length_bytesField_le k (length_utf8_of_isUuidv7 hs)
  refine ⟨inRange_timestampNew h.acceptedAt, ?_, ?_, ?_⟩
  · intro t' ht'
    obtain rfl : t = t' := Option.some.inj (ht.symm.trans ht')
    exact inRange_of_checkValid htv
  · have := h.sequence
    change result.logSequence < 2 ^ 64
    omega
  · have h1 := hid 1 h.receiptId
    have h2 := hid 2 hauthorization
    have h3 := hid 3 hevent
    have h4 := hid 4 htenant
    have h5 := hid 5 hreservation
    have h6 := hid 6 hinteraction
    have h7 := hid 7 htarget
    have h8 := length_timestamp_le 8 (timestampNew result.acceptedAt)
    have h9 := length_timestamp_le 9 t
    have h10 := length_uintField_le 10 (n := result.logSequence) (by have := h.sequence; omega)
    have h11 := length_bytesField_le 11 h.issuer
    have h12 := length_uintField_le 12 (n := 1) (by decide)
    simp only [DeliveryReceipt.marshal, receiptFromAppend, ht, marshalDeadline, DeliveryVisibility.number,
      List.length_append, List.append_nil]
    omega

end RelayPoint.Delivery
