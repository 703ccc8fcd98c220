import RelayPoint.Data.Protobuf
import RelayPoint.Projector.State

/-!
# Schema — the messages of the interaction log and the feeds, on the wire

The field numbers of `interaction.proto`, as the Go services write a message and as the SDK reads
one.  The first four fields of `Event` and of `FeedControl` have the same numbers and kinds, so the
bytes of the one can be read as the other (`allFit_eventEntries`).

The time of an event is the number of nanoseconds since the Unix epoch.
-/

namespace RelayPoint.Sdk

open Protobuf Wire
open Signaling (Event)
open Projector (FeedControl)

/-! ## Schemas -/

def eventSchema : Schema := fun k =>
  [(1, Kind.text), (2, .text), (3, .text), (4, .varint), (5, .bytes), (6, .text), (7, .text), (8, .text),
    (9, .text), (10, .text), (11, .text), (12, .text), (13, .text), (14, .bytes), (15, .text), (16, .text),
    (17, .text)].lookup k

def timestampSchema : Schema := fun k =>
  [(1, Kind.varint), (2, .varint)].lookup k

def feedControlSchema : Schema := fun k =>
  [(1, Kind.text), (2, .text), (3, .text), (4, .varint)].lookup k

def chatMessageSchema : Schema := fun k =>
  [(1, Kind.text), (2, .text)].lookup k

/-! ## Writers -/

def timestampEntries (at_ : Nat) : List Entry :=
  varintEntry 1 (twosComplement (at_ / 10 ^ 9 : Nat)) ++ varintEntry 2 (at_ % 10 ^ 9)

def eventEntries (e : Event) : List Entry :=
  textEntry 1 e.schema ++ textEntry 2 e.eventType ++ textEntry 3 e.eventId ++
    varintEntry 4 (twosComplement e.sequence) ++ messageEntry 5 (timestampEntries e.occurredAt) ++
    textEntry 6 e.tenantId ++ textEntry 7 e.actorId ++ textEntry 8 e.medium ++
    textEntry 10 e.commandId ++ textEntry 11 e.payloadHash ++ textEntry 12 e.causedBy ++
    textEntry 13 e.refId ++ bytesEntry 14 e.data ++ textEntry 15 e.commandedBy ++
    textEntry 16 e.reason ++ textEntry 17 e.requestId

def marshalEvent (e : Event) : Bytes :=
  encode (eventEntries e)

def feedControlEntries (c : FeedControl) : List Entry :=
  textEntry 1 c.schema ++ textEntry 2 c.control ++ textEntry 3 c.interactionId ++
    varintEntry 4 (twosComplement c.atSequence)

def marshalFeedControl (c : FeedControl) : Bytes :=
  encode (feedControlEntries c)

/-! ## Reading what was written -/

theorem allFit_timestampEntries (at_ : Nat) : AllFit timestampSchema (timestampEntries at_) := by
  have hnanos : at_ % 10 ^ 9 < 2 ^ 64 := by omega
  exact allFit_append.2 ⟨allFit_varintEntry (by decide) rfl (twosComplement_lt _),
    allFit_varintEntry (by decide) rfl hnanos⟩

theorem allFit_feedControlEntries (c : FeedControl) : AllFit feedControlSchema (feedControlEntries c) := by
  simp only [feedControlEntries, allFit_append]
  exact ⟨⟨⟨allFit_textEntry (by decide) rfl _, allFit_textEntry (by decide) rfl _⟩,
    allFit_textEntry (by decide) rfl _⟩, allFit_varintEntry (by decide) rfl (twosComplement_lt _)⟩

theorem allFit_eventEntries {schema : Schema} (hvarint : (schema 4).getD .varint = .varint)
    (hbytes : ∀ k ∈ [5, 14], (schema k).getD .bytes = .bytes)
    (htext : ∀ k ∈ [1, 2, 3, 6, 7, 8, 10, 11, 12, 13, 15, 16, 17], (schema k).getD .text = .text)
    (e : Event) : AllFit schema (eventEntries e) := by
  have hsequence : AllFit schema (varintEntry 4 (twosComplement e.sequence)) :=
    allFit_varintEntry (by decide) hvarint (twosComplement_lt _)
  simp [eventEntries, allFit_textEntry, allFit_bytesEntry, allFit_messageEntry, hsequence, hbytes, htext]

theorem allFit_eventSchema (e : Event) : AllFit eventSchema (eventEntries e) :=
  allFit_eventEntries rfl (by decide) (by decide) e

theorem fromBinary_eventEntries (td : TextDecoder) {e : Event} (h : (marshalEvent e).length < 2 ^ 32) :
    fromBinary td eventSchema (marshalEvent e) = some (known eventSchema (eventEntries e)) :=
  fromBinary_encode td (allFit_eventSchema e) h

theorem fromBinary_eventEntries_feedControl (td : TextDecoder) {e : Event}
    (h : (marshalEvent e).length < 2 ^ 32) :
    fromBinary td feedControlSchema (marshalEvent e) = some (known feedControlSchema (eventEntries e)) :=
  fromBinary_encode td (allFit_eventEntries rfl (by decide) (by decide) e) h

end RelayPoint.Sdk
