import RelayPoint.Sdk.Schema
import RelayPoint.Sdk.Types

/-!
# Codec — how the SDK reads the messages of the log and the feeds

`decodeLogEvent` reads a fact of a log and `decodeAgentFeedItem` a message of a feed, which is a
projected event or a control message.  The two are told apart by reading every message as a control
message first.

Numbers of the SDK are doubles; `number` is the integer that a 64-bit number becomes.
-/

namespace RelayPoint.Sdk

open Protobuf Wire
open Signaling (Event splitDot DotFree)
open Projector (FeedControl)

/-! ## Decoding -/

inductive DecodeError where
  | malformed
  | invalidTime
  | error (message : String)
deriving DecidableEq, Repr

section Numbers

def number (n : Int) : Int :=
  let m := n.natAbs
  let shift := m.log2 - 52
  let low := m % 2 ^ shift
  let high := m / 2 ^ shift
  let up := 2 ^ shift < 2 * low ∨ 2 ^ shift = 2 * low ∧ high % 2 = 1
  n.sign * ((if up then high + 1 else high) * 2 ^ shift : Nat)

theorem number_of_dvd {n : Int} (h : 2 ^ (n.natAbs.log2 - 52) ∣ n.natAbs) : number n = n := by
  have hlow : n.natAbs % 2 ^ (n.natAbs.log2 - 52) = 0 := Nat.mod_eq_zero_of_dvd h
  have hpos : 0 < 2 ^ (n.natAbs.log2 - 52) := Nat.two_pow_pos _
  simp only [number, hlow, Nat.mul_zero, Nat.not_lt_zero, hpos.ne', false_and, or_self, if_false,
    Nat.div_mul_cancel h, Int.sign_mul_natAbs]

theorem number_of_le {n : Int} (h : n.natAbs ≤ 2 ^ 53) : number n = n := by
  refine number_of_dvd ?_
  rcases Nat.lt_or_eq_of_le h with hlt | heq
  · have hlog : n.natAbs.log2 < 53 := by
      by_cases hzero : n.natAbs = 0
      · rw [hzero]
        decide
      · exact (Nat.log2_lt hzero).2 hlt
    rw [Nat.sub_eq_zero_of_le (Nat.le_of_lt_succ hlog)]
    exact Nat.one_dvd _
  · rw [heq]
    exact Nat.pow_dvd_pow 2 (by decide)

end Numbers

section Time

def padded (width : Nat) (n : Int) : String :=
  let digits := n.toNat.repr
  String.ofList (List.replicate (width - digits.length) '0') ++ digits

def yearText (y : Int) : String :=
  if 0 ≤ y ∧ y ≤ 9999 then padded 4 y else (if y < 0 then "-" else "+") ++ padded 6 y.natAbs

/-- The year, month and day of a number of days since the Unix epoch.  A year is counted from March on,
so that the leap day is its last; `era` counts spans of 400 years. -/
def civil (days : Int) : Int × Int × Int :=
  let z := days + 719468
  let era := z / 146097
  let dayOfEra := z % 146097
  let yearOfEra := (dayOfEra - dayOfEra / 1460 + dayOfEra / 36524 - dayOfEra / 146096) / 365
  let dayOfYear := dayOfEra - (365 * yearOfEra + yearOfEra / 4 - yearOfEra / 100)
  let march := (5 * dayOfYear + 2) / 153
  let month := if march < 10 then march + 3 else march - 9
  let year := yearOfEra + era * 400
  (if month ≤ 2 then year + 1 else year, month, dayOfYear - (153 * march + 2) / 5 + 1)

def isoText (ms : Int) : String :=
  let date := civil (ms / 86400000)
  let time := ms % 86400000
  yearText date.1 ++ "-" ++ padded 2 date.2.1 ++ "-" ++ padded 2 date.2.2 ++ "T" ++
    padded 2 (time / 3600000) ++ ":" ++ padded 2 (time / 60000 % 60) ++ ":" ++
    padded 2 (time / 1000 % 60) ++ "." ++ padded 3 (time % 1000) ++ "Z"

example : isoText 1709210096789 = "2024-02-29T12:34:56.789Z" := by
  decide +kernel

def timestampToIso (seconds nanos : Int) : Except DecodeError String :=
  let ms := number seconds * 1000 + nanos / 1000000
  if ms.natAbs ≤ 8640000000000000 then .ok (isoText ms) else .error .invalidTime

end Time

section Decoders

variable (td : TextDecoder)

def parse (schema : Schema) (bytes : Bytes) : Except DecodeError (List Entry) :=
  (fromBinary td schema bytes).elim (.error .malformed) .ok

def startsWith (s start : String) : Bool :=
  start.toList.isPrefixOf s.toList

def isChatMessage (medium eventOrType : String) : Bool :=
  medium == "chat" && startsWith eventOrType "message."

def decodePayload (medium eventType : String) (data : Bytes) : Except DecodeError Payload :=
  if isChatMessage medium eventType then
    (parse td chatMessageSchema data).map fun m => .chat ⟨textAt 1 m, valuesAt Value.text? 2 m⟩
  else .ok (.raw data)

/-- The time of an event, empty without the field.  A submessage that comes in several parts is merged,
which reading the parts in a row does. -/
def decodeOccurredAt (w : List Entry) : Except DecodeError String :=
  match valuesAt Value.bytes? 5 w with
  | [] => .ok ""
  | parts => (parse td timestampSchema parts.flatten).bind fun t =>
    timestampToIso (int64 (varintAt 1 t)) (int32 (varintAt 2 t))

def nonempty (s : String) : Option String :=
  if s = "" then none else some s

def decodeLogEvent (bytes : Bytes) : Except DecodeError LogEvent :=
  (parse td eventSchema bytes).bind fun w =>
    (decodeOccurredAt td w).bind fun occurredAt =>
      (decodePayload td (textAt 8 w) (textAt 2 w) (bytesAt 14 w)).map fun data =>
        { schema := textAt 1 w
          tenantId := textAt 6 w
          eventType := textAt 2 w
          eventId := textAt 3 w
          sequence := number (int64 (varintAt 4 w))
          occurredAt
          actorId := textAt 7 w
          medium := textAt 8 w
          mediaProfile := nonempty (textAt 9 w)
          causedBy := nonempty (textAt 12 w)
          refId := nonempty (textAt 13 w)
          data }

def interactionIdFromFeedSubject (subject : Option String) : Option String :=
  match subject.map splitDot with
  | some [p0, _, p2, _, p4, iid] =>
    if p0 ≠ "tenant" ∨ p2 ≠ "agent" ∨ p4 ≠ "feed" then none else nonempty iid
  | _ => none

/-- A message that is no control message is a projected event, under the subject of its feed. -/
def decodeProjected (bytes : Bytes) (subject : Option String) : Except DecodeError AgentFeedItem :=
  match interactionIdFromFeedSubject subject with
  | none => .error (.error "agent feed Event missing concrete feed subject")
  | some iid => (decodeLogEvent td bytes).map (.event iid)

def decodeAgentFeedItem (bytes : Bytes) (subject : Option String) : Except DecodeError AgentFeedItem :=
  (parse td feedControlSchema bytes).bind fun ctrl =>
    let control := textAt 2 ctrl
    if textAt 1 ctrl = schemaV1 ∧ startsWith control "feed." then
      let iid := textAt 3 ctrl
      let atSequence := number (int64 (varintAt 4 ctrl))
      .ok (if control = "feed.revoked" then .revoked iid atSequence else .control control iid atSequence)
    else decodeProjected td bytes subject

end Decoders

/-! ## Reading what the services write -/

/-- A fact that the transport and the SDK can carry: its length is a number of 32 bits, its sequence is
exact as a number of the SDK, and its time is in the calendar of the SDK. -/
structure Transmissible (e : Event) : Prop where
  length : (marshalEvent e).length < 2 ^ 32
  sequence : e.sequence.natAbs ≤ 2 ^ 53
  time : e.occurredAt / 10 ^ 6 ≤ 8640000000000000

theorem transmissible_iff {e : Event} : (marshalEvent e).length < 2 ^ 32 ∧
    e.sequence.natAbs ≤ 2 ^ 53 ∧ e.occurredAt / 10 ^ 6 ≤ 8640000000000000 ↔ Transmissible e :=
  ⟨fun h => ⟨h.1, h.2.1, h.2.2⟩, fun h => ⟨h.length, h.sequence, h.time⟩⟩

instance (e : Event) : Decidable (Transmissible e) :=
  decidable_of_iff _ transmissible_iff

def logEvent (e : Event) (data : Payload) : LogEvent where
  schema := e.schema
  tenantId := e.tenantId
  eventType := e.eventType
  eventId := e.eventId
  sequence := e.sequence
  occurredAt := isoText (e.occurredAt / 10 ^ 6 : Nat)
  actorId := e.actorId
  medium := e.medium
  mediaProfile := none
  causedBy := nonempty e.causedBy
  refId := nonempty e.refId
  data

section Written

variable (td : TextDecoder) {e : Event}

theorem number_int64_twosComplement {n : Int} (h : n.natAbs ≤ 2 ^ 53) :
    number (int64 (twosComplement n)) = n := by
  rw [int64_twosComplement (by omega), number_of_le h]

theorem int32_of_lt {n : Nat} (h : n < 2 ^ 31) : int32 n = n := by
  have hmod : n % 2 ^ 32 = n := Nat.mod_eq_of_lt (by omega)
  simp only [int32, hmod, h, if_true]

theorem varintAt_timestampEntries (at_ : Nat) :
    varintAt 1 (known timestampSchema (timestampEntries at_)) = twosComplement (at_ / 10 ^ 9 : Nat) ∧
      varintAt 2 (known timestampSchema (timestampEntries at_)) = at_ % 10 ^ 9 := by
  simp only [varintAt]
  rw [valuesAt_known rfl, valuesAt_known rfl]
  simp only [timestampEntries, valuesAt_append, valuesAt_varintEntry_ne (show 2 ≠ 1 by decide),
    valuesAt_varintEntry_ne (show 1 ≠ 2 by decide), List.append_nil, List.nil_append,
    getD_varintEntry, and_self]

theorem timestampToIso_of_le {at_ : Nat} (h : at_ / 10 ^ 6 ≤ 8640000000000000) :
    timestampToIso (int64 (twosComplement (at_ / 10 ^ 9 : Nat))) (int32 (at_ % 10 ^ 9)) =
      .ok (isoText (at_ / 10 ^ 6 : Nat)) := by
  have hseconds : number (int64 (twosComplement (at_ / 10 ^ 9 : Nat))) = (at_ / 10 ^ 9 : Nat) :=
    number_int64_twosComplement (by omega)
  have hms : ((at_ / 10 ^ 9 : Nat) : Int) * 1000 + ((at_ % 10 ^ 9 : Nat) : Int) / 1000000 =
      (at_ / 10 ^ 6 : Nat) := by
    omega
  simp only [timestampToIso, hseconds, int32_of_lt (show at_ % 10 ^ 9 < 2 ^ 31 by omega), hms]
  exact if_pos (by rwa [Int.natAbs_natCast])

theorem valuesAt_occurredAt (e : Event) : valuesAt Value.bytes? 5 (known eventSchema (eventEntries e)) =
    [encode (timestampEntries e.occurredAt)] := by
  rw [valuesAt_known rfl]
  simp [eventEntries, valuesAt_textEntry_ne, valuesAt_bytesEntry_ne, valuesAt_varintEntry_ne]

theorem decodeOccurredAt_eventEntries (h : Transmissible e) :
    decodeOccurredAt td (known eventSchema (eventEntries e)) =
      .ok (isoText (e.occurredAt / 10 ^ 6 : Nat)) := by
  have hmem : (5, Value.bytes (encode (timestampEntries e.occurredAt))) ∈ eventEntries e := by
    simp [eventEntries, messageEntry]
  have hfits := allFit_eventSchema e _ hmem
  have hlen : (encode (timestampEntries e.occurredAt)).length < 2 ^ 32 := hfits.sized hmem h.length
  simp only [decodeOccurredAt, valuesAt_occurredAt, List.flatten_singleton, parse,
    fromBinary_encode td (allFit_timestampEntries e.occurredAt) hlen, Option.elim_some]
  simp only [Except.bind, varintAt_timestampEntries, timestampToIso_of_le h.time]

theorem isSome_eventSchema : ∀ k < 18, 0 < k → (eventSchema k).isSome = true := by
  decide

theorem isSome_feedControlSchema : ∀ k < 5, 0 < k → (feedControlSchema k).isSome = true := by
  decide

theorem decodeLogEvent_marshalEvent (h : Transmissible e) :
    decodeLogEvent td (marshalEvent e) =
      (decodePayload td e.medium e.eventType e.data).map (logEvent e) := by
  simp only [decodeLogEvent, parse, fromBinary_eventEntries td h.length, Option.elim_some]
  simp only [Except.bind, decodeOccurredAt_eventEntries td h, textAt, bytesAt, varintAt]
  simp [valuesAt_known, isSome_eventSchema, eventEntries, valuesAt_textEntry_ne, valuesAt_bytesEntry_ne,
    valuesAt_varintEntry_ne, valuesAt_messageEntry_ne, number_int64_twosComplement h.sequence]
  rfl

theorem decodeAgentFeedItem_marshalEvent (h : Transmissible e) (subject : Option String) :
    decodeAgentFeedItem td (marshalEvent e) subject =
      if e.schema = schemaV1 ∧ startsWith e.eventType "feed." then
        .ok (if e.eventType = "feed.revoked" then .revoked e.eventId e.sequence
          else .control e.eventType e.eventId e.sequence)
      else decodeProjected td (marshalEvent e) subject := by
  simp only [decodeAgentFeedItem, parse, fromBinary_eventEntries_feedControl td h.length]
  simp only [Except.bind, textAt, varintAt]
  simp [valuesAt_known, isSome_feedControlSchema, eventEntries, valuesAt_textEntry_ne, valuesAt_bytesEntry_ne,
    valuesAt_varintEntry_ne, valuesAt_messageEntry_ne, number_int64_twosComplement h.sequence]

/-- The wire form of a `ChatMessage`: its fields in any order and number, and fields that it does not
have. -/
def IsChatWire (data : Bytes) : Prop :=
  ∃ es, AllFit chatMessageSchema es ∧ data = encode es

theorem exists_decodePayload (h : Transmissible e)
    (hchat : isChatMessage e.medium e.eventType = true → IsChatWire e.data) :
    ∃ p, decodePayload td e.medium e.eventType e.data = .ok p := by
  unfold decodePayload
  split
  · next hmessage =>
      rcases hchat hmessage with ⟨es, hfit, hdata⟩
      have hlen : (encode es).length < 2 ^ 32 := by
        by_cases hempty : e.data = []
        · simp [← hdata, hempty]
        · have hmem : (14, Value.bytes e.data) ∈ eventEntries e := by
            simp [eventEntries, bytesEntry, hempty]
          have hfits := allFit_eventSchema e _ hmem
          exact hdata ▸ hfits.sized hmem h.length
      rw [hdata, parse, fromBinary_encode td hfit hlen]
      exact ⟨_, rfl⟩
  · exact ⟨_, rfl⟩

theorem decodeAgentFeedItem_marshalFeedControl {c : FeedControl} (hschema : c.schema = schemaV1)
    (hcontrol : c.control = "feed.revoked") (hlen : (marshalFeedControl c).length < 2 ^ 32)
    (hsequence : c.atSequence.natAbs ≤ 2 ^ 53) (subject : Option String) :
    decodeAgentFeedItem td (marshalFeedControl c) subject =
      .ok (.revoked c.interactionId c.atSequence) := by
  have hread : fromBinary td feedControlSchema (marshalFeedControl c) =
      some (known feedControlSchema (feedControlEntries c)) :=
    fromBinary_encode td (allFit_feedControlEntries c) hlen
  have hstart : startsWith "feed.revoked" "feed." = true := by decide
  simp only [decodeAgentFeedItem, parse, hread, Except.bind, textAt, varintAt]
  simp [valuesAt_known, isSome_feedControlSchema, feedControlEntries, valuesAt_textEntry_ne,
    valuesAt_varintEntry_ne, number_int64_twosComplement hsequence, hschema, hcontrol, hstart]

end Written

end RelayPoint.Sdk
