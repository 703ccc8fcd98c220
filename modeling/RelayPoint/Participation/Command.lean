import RelayPoint.Data.Wire
import RelayPoint.Journal.Checkpoint
import RelayPoint.Signaling.Envelope
import Mathlib.Data.Finset.Basic

/-!
# Command — participation commands, their identity and their fold

Desired participation is a sequence of commands per interaction, numbered by `aggregate_version`.
This file holds what the projector computes without its store: which commands are well formed
(`canonical`), how a list of them changes a fold (`foldRecords`), and which answers of the authority
are accepted (`validateReplay`, `validateSnapshot`).

A `Record` is built by `canonical` alone, so it carries the proof that its command is well formed,
and its identity is a function of the command.  Versions are natural numbers: whatever the code adds
one to was read from a `bigint` column, so nothing here wraps.
-/

namespace RelayPoint.Participation

open Journal Wire

/-! ## Errors -/

inductive Sentinel where
  | invalid
  | permissionDenied
  | divergentHistory
  | unknownHistory
  | reconcileExhausted
  deriving DecidableEq, Repr

/-- An error, by the sentinels that `errors.Is` finds in it; `errors.Join` is concatenation, and an
error of the database or the network has none. -/
abbrev Err := List Sentinel

/-! ## Commands -/

structure Timestamp where
  seconds : Int
  nanos : Int
  deriving DecidableEq, Repr

def Timestamp.checkValid (t : Timestamp) : Bool :=
  -62135596800 ≤ t.seconds && t.seconds ≤ 253402300799 && 0 ≤ t.nanos && t.nanos ≤ 999999999

inductive DesiredState where
  | unspecified
  | assigned
  | unassigned
  | unrecognized (number : Int)
  deriving DecidableEq, Repr

def DesiredState.number : DesiredState → Int
  | .unspecified => 0
  | .assigned => 1
  | .unassigned => 2
  | .unrecognized number => number

structure ParticipationCommand where
  eventId : String
  aggregateVersion : Nat
  tenantId : String
  interactionId : String
  participantId : String
  desiredState : DesiredState
  occurredAt : Option Timestamp
  traceparent : String
  deriving DecidableEq, Repr

structure Key where
  tenantId : String
  interactionId : String
  deriving DecidableEq, Repr

def ParticipationCommand.key (c : ParticipationCommand) : Key :=
  ⟨c.tenantId, c.interactionId⟩

/-! ## Well-formedness -/

def isHex (c : Char) : Bool :=
  ('0' ≤ c && c ≤ '9') || ('a' ≤ c && c ≤ 'f')

/-- `^[0-9a-f]{8}-[0-9a-f]{4}-7[0-9a-f]{3}-[89ab][0-9a-f]{3}-[0-9a-f]{12}$`, one test a character. -/
def uuidv7Pattern : List (Char → Bool) :=
  List.replicate 8 isHex ++ [(· == '-')] ++ List.replicate 4 isHex ++ [(· == '-'), (· == '7')] ++
    List.replicate 3 isHex ++ [(· == '-'), ['8', '9', 'a', 'b'].contains] ++ List.replicate 3 isHex ++
    [(· == '-')] ++ List.replicate 12 isHex

def matchAll : List (Char → Bool) → List Char → Bool
  | [], [] => true
  | p :: ps, c :: cs => p c && matchAll ps cs
  | _, _ => false

-- Irreducible, like `parseTraceparent`: no unifier should run a pattern on an unknown text.
@[irreducible] def isUuidv7 (s : String) : Bool :=
  matchAll uuidv7Pattern s.toList

/-- Whether `obs.ParseTraceparent` accepts the text: version 00, a trace id and a span id that are
not all zeros, and flags. -/
@[irreducible] def parseTraceparent (raw : String) : Bool :=
  let cs := raw.toList
  let traceID := (cs.drop 3).take 32
  let spanID := (cs.drop 36).take 16
  cs.length = 55 && cs[2]? = some '-' && cs[35]? = some '-' && cs[52]? = some '-' &&
    cs.take 2 = ['0', '0'] && traceID.all isHex && spanID.all isHex && (cs.drop 53).all isHex &&
    traceID.any (· ≠ '0') && spanID.any (· ≠ '0')

def wellFormed (c : ParticipationCommand) : Bool :=
  isUuidv7 c.eventId && isUuidv7 c.tenantId && isUuidv7 c.interactionId &&
    isUuidv7 c.participantId && c.aggregateVersion ≠ 0 &&
    (c.desiredState = .assigned || c.desiredState = .unassigned) &&
    c.occurredAt.any Timestamp.checkValid && parseTraceparent c.traceparent

/-! ## The deterministic encoding -/

def Timestamp.marshal (t : Timestamp) : Bytes :=
  uintField 1 (twosComplement t.seconds) ++ (uintField 2 (twosComplement t.nanos) ++ [])

def marshalOccurredAt : Option Timestamp → Bytes
  | none => []
  | some t => messageField 7 t.marshal

def marshal (c : ParticipationCommand) : Bytes :=
  bytesField 1 (Signaling.utf8 c.eventId) ++ (uintField 2 c.aggregateVersion ++
    (bytesField 3 (Signaling.utf8 c.tenantId) ++ (bytesField 4 (Signaling.utf8 c.interactionId) ++
      (bytesField 5 (Signaling.utf8 c.participantId) ++
        (uintField 6 (twosComplement c.desiredState.number) ++ (marshalOccurredAt c.occurredAt ++
          (bytesField 8 (Signaling.utf8 c.traceparent) ++ [])))))))

theorem utf8_inj {s t : String} (h : Signaling.utf8 s = Signaling.utf8 t) : s = t := by
  have hbytes : s.toUTF8 = t.toUTF8 := ByteArray.ext (Array.toList_inj.1 h)
  exact String.toByteArray_inj.1 hbytes

theorem Timestamp.marshal_inj {s t : Timestamp} (hs : s.checkValid = true)
    (ht : t.checkValid = true) (h : s.marshal = t.marshal) : s = t := by
  simp only [Timestamp.checkValid, Bool.and_eq_true, decide_eq_true_eq] at hs ht
  have hbegin : ∀ n, Begins 1 (uintField 2 n ++ []) := by
    intro n
    exact begins_uintField (by omega) (by omega) (begins_nil 2)
  rcases uintField_append_inj (by omega) (hbegin _) (hbegin _) h with ⟨hsec, hrest⟩
  have hnanos := (uintField_append_inj (by omega) (begins_nil 2) (begins_nil 2) hrest).1
  have hsec := twosComplement_inj (by omega) (by omega) hsec
  have hnanos := twosComplement_inj (by omega) (by omega) hnanos
  cases s
  simp_all

theorem begins_marshalOccurredAt {t : Option Timestamp} {b : Bytes} (hb : Begins 7 b) :
    Begins 6 (marshalOccurredAt t ++ b) := by
  cases t with
  | none => exact hb.mono (by omega)
  | some t => exact begins_messageField (by omega) (by omega)

theorem DesiredState.number_inj {s t : DesiredState} (hs : s = .assigned ∨ s = .unassigned)
    (ht : t = .assigned ∨ t = .unassigned) (h : twosComplement s.number = twosComplement t.number) :
    s = t := by
  rcases hs with rfl | rfl <;> rcases ht with rfl | rfl <;>
    first | rfl | exact absurd h (by decide)

variable {c : ParticipationCommand} {r held : Record} {rs : List Record} {e : Err}
variable {cs : List ParticipationCommand} {intent : Intent}

theorem marshal_inj {d : ParticipationCommand} (hc : wellFormed c = true) (hd : wellFormed d = true)
    (h : marshal c = marshal d) : c = d := by
  simp only [wellFormed, Bool.and_eq_true, Bool.or_eq_true, decide_eq_true_eq] at hc hd
  obtain ⟨⟨⟨_, hcs⟩, hct⟩, _⟩ := hc
  obtain ⟨⟨⟨_, hds⟩, hdt⟩, _⟩ := hd
  -- What follows field `k` starts with the tag of a later field.
  have b7 : ∀ s, Begins 7 (bytesField 8 s ++ []) := fun s =>
    begins_bytesField (by omega) (by omega) (begins_nil 8)
  have b6 : ∀ t s, Begins 6 (marshalOccurredAt t ++ (bytesField 8 s ++ [])) := fun t s =>
    begins_marshalOccurredAt (b7 s)
  have b5 : ∀ n t s, Begins 5 (uintField 6 n ++ (marshalOccurredAt t ++ (bytesField 8 s ++ []))) :=
    fun n t s => begins_uintField (by omega) (by omega) (b6 t s)
  have b4 : ∀ {p b}, Begins 5 b → Begins 4 (bytesField 5 p ++ b) :=
    fun hb => begins_bytesField (by omega) (by omega) hb
  have b3 : ∀ {p b}, Begins 4 b → Begins 3 (bytesField 4 p ++ b) :=
    fun hb => begins_bytesField (by omega) (by omega) hb
  have b2 : ∀ {p b}, Begins 3 b → Begins 2 (bytesField 3 p ++ b) :=
    fun hb => begins_bytesField (by omega) (by omega) hb
  have b1 : ∀ {n b}, Begins 2 b → Begins 1 (uintField 2 n ++ b) :=
    fun hb => begins_uintField (by omega) (by omega) hb
  rcases bytesField_append_inj (by omega) (b1 (b2 (b3 (b4 (b5 _ _ _)))))
    (b1 (b2 (b3 (b4 (b5 _ _ _))))) h with ⟨h1, h⟩
  rcases uintField_append_inj (by omega) (b2 (b3 (b4 (b5 _ _ _)))) (b2 (b3 (b4 (b5 _ _ _)))) h with
    ⟨h2, h⟩
  rcases bytesField_append_inj (by omega) (b3 (b4 (b5 _ _ _))) (b3 (b4 (b5 _ _ _))) h with ⟨h3, h⟩
  rcases bytesField_append_inj (by omega) (b4 (b5 _ _ _)) (b4 (b5 _ _ _)) h with ⟨h4, h⟩
  rcases bytesField_append_inj (by omega) (b5 _ _ _) (b5 _ _ _) h with ⟨h5, h⟩
  rcases uintField_append_inj (by omega) (b6 _ _) (b6 _ _) h with ⟨h6, h⟩
  have h6 := DesiredState.number_inj hcs hds h6
  rcases (Option.any_eq_true _ _).1 hct with ⟨s, hs, hsv⟩
  rcases (Option.any_eq_true _ _).1 hdt with ⟨t, ht, htv⟩
  rw [hs, ht] at h
  rcases messageField_append_inj h with ⟨h7, h⟩
  have h7 := Timestamp.marshal_inj hsv htv h7
  have h8 := (bytesField_append_inj (by omega) (begins_nil 8) (begins_nil 8) h).1
  have h1 := utf8_inj h1
  have h3 := utf8_inj h3
  have h4 := utf8_inj h4
  have h5 := utf8_inj h5
  have h8 := utf8_inj h8
  cases c
  cases d
  simp_all

/-! ## Records -/

abbrev Digest := { b : Bytes // b.length = 32 }

structure Identity where
  eventId : String
  hash : Digest
  body : Bytes
  deriving DecidableEq

structure Record where
  command : ParticipationCommand
  valid : wellFormed command = true
  deriving DecidableEq

def canonical (c : ParticipationCommand) : Except Err Record :=
  if h : wellFormed c = true then .ok ⟨c, h⟩ else .error [.invalid]

namespace Record

def key (r : Record) : Key :=
  r.command.key

def version (r : Record) : Nat :=
  r.command.aggregateVersion

def identity (r : Record) : Identity :=
  ⟨r.command.eventId, ⟨Sha256.sum256 (marshal r.command), Sha256.length_sum256 _⟩, marshal r.command⟩

def apply (participants : Finset String) (r : Record) : Finset String :=
  if r.command.desiredState = .assigned then insert r.command.participantId participants
  else participants.erase r.command.participantId

theorem version_pos (r : Record) : 0 < r.version := by
  have h := r.valid
  simp only [wellFormed, Bool.and_eq_true, decide_eq_true_eq] at h
  exact Nat.pos_of_ne_zero h.1.1.1.2

theorem ext_body {s : Record} (h : r.identity.body = s.identity.body) : r = s := by
  have hcommand := marshal_inj r.valid s.valid h
  cases r
  simp_all

end Record

theorem canonical_ok (h : canonical c = .ok r) : r.command = c := by
  unfold canonical at h
  split at h
  · cases h
    rfl
  · cases h

def sameIdentity (left right : Identity) : Bool :=
  left.eventId = right.eventId && left.hash = right.hash

/-! ## The fold -/

def Identity.zero : Identity :=
  ⟨"", ⟨List.replicate 32 0, by simp⟩, []⟩

structure Fold where
  tenantId : String
  interactionId : String
  version : Nat
  identity : Identity
  participants : Finset String
  snapshotProvenance : String
  deriving DecidableEq

def Fold.key (f : Fold) : Key :=
  ⟨f.tenantId, f.interactionId⟩

def foldRecord (next : Fold) (r : Record) : Except Err Fold :=
  if r.version ≠ next.version + 1 ∨ (next.tenantId ≠ "" ∧
      (next.tenantId ≠ r.command.tenantId ∨ next.interactionId ≠ r.command.interactionId)) then
    .error [.divergentHistory]
  else
    .ok { tenantId := r.command.tenantId, interactionId := r.command.interactionId,
          version := r.version, identity := r.identity,
          participants := r.apply next.participants, snapshotProvenance := "" }

def foldRecords : Fold → List Record → Except Err Fold
  | next, [] => .ok next
  | next, r :: rs =>
    match foldRecord next r with
    | .error e => .error e
    | .ok next' => foldRecords next' rs

theorem foldRecord_ok {f g : Fold} (h : foldRecord f r = .ok g) :
    r.version = f.version + 1 ∧ g.version = f.version + 1 ∧ g.key = r.key ∧
      g.participants = r.apply f.participants := by
  unfold foldRecord at h
  split at h
  · cases h
  · next hc =>
      cases h
      have hv : r.version = f.version + 1 := by
        by_contra hv
        exact hc (.inl hv)
      exact ⟨hv, hv, rfl, rfl⟩

structure Folded (f g : Fold) (rs : List Record) : Prop where
  key : (∀ r ∈ rs, r.key = f.key) → g.key = f.key
  consecutive : Consecutive Record.version f.version rs
  version : g.version = f.version + rs.length
  participants : g.participants = rs.foldl Record.apply f.participants

theorem foldRecords_ok : ∀ {f g : Fold}, foldRecords f rs = .ok g →
    Folded f g rs := by
  induction rs with
  | nil =>
    intro f g h
    cases h
    exact ⟨fun _ => rfl, consecutive_nil, rfl, rfl⟩
  | cons r rs ih =>
    intro f g h
    cases hr : foldRecord f r with
    | error e => simp [foldRecords, hr] at h
    | ok f' =>
      have htail := ih (by simpa [foldRecords, hr] using h)
      rcases foldRecord_ok hr with ⟨hv, hf', hkey, hpart⟩
      refine ⟨fun hkeys => ?_, consecutive_cons.2 ⟨hv, by simpa [hf'] using htail.consecutive⟩,
        ?_, ?_⟩
      · have hf'key : f'.key = f.key := hkey.trans (hkeys r (by simp))
        rw [← hf'key]
        exact htail.key fun s hs => (hkeys s (by simp [hs])).trans hf'key.symm
      · simp only [htail.version, List.length_cons]
        omega
      · simp [htail.participants, hpart]

theorem foldRecords_total : ∀ {f : Fold}, (∀ r ∈ rs, r.key = f.key) →
    Consecutive Record.version f.version rs → ∃ g, foldRecords f rs = .ok g := by
  induction rs with
  | nil =>
    intro f _ _
    exact ⟨f, rfl⟩
  | cons r rs ih =>
    intro f hkey hcons
    rcases consecutive_cons.1 hcons with ⟨hv, htail⟩
    have hr : r.key = f.key := hkey r (by simp)
    have htenant : r.command.tenantId = f.tenantId := congrArg Key.tenantId hr
    have hinteraction : r.command.interactionId = f.interactionId := congrArg Key.interactionId hr
    have hstep : ∃ f', foldRecord f r = .ok f' ∧ f'.version = f.version + 1 ∧ f'.key = f.key := by
      refine ⟨_, if_neg ?_, hv, hr⟩
      simp [hv, htenant, hinteraction]
    rcases hstep with ⟨f', hf', hversion, hf'key⟩
    rcases ih (f := f') (fun s hs => by simpa [hf'key] using hkey s (by simp [hs]))
      (by simpa [hversion] using htail) with ⟨g, hg⟩
    exact ⟨g, by simpa [foldRecords, hf'] using hg⟩

/-! ## Answers of the authority -/

structure Intent where
  token : String
  key : Key
  observedVersion : Nat
  requestedFrom : Nat
  requestedTo : Nat
  held : Identity
  deriving DecidableEq

structure Snapshot where
  fold : Fold
  historyFloor : Nat
  provenance : String
  deriving DecidableEq

structure ReplayResponse where
  commands : List ParticipationCommand
  headVersion : Nat
  headEventId : String
  headHash : Bytes
  historyFloor : Nat
  provenance : String
  deriving DecidableEq

structure SnapshotResponse where
  tenantId : String
  interactionId : String
  aggregateVersion : Nat
  headEventId : String
  headHash : Bytes
  participantIds : List String
  historyFloor : Nat
  provenance : String
  deriving DecidableEq

def replayRecord (key : Key) (next : Nat) (c : ParticipationCommand) : Except Err Record :=
  match canonical c with
  | .error _ => .error [.divergentHistory]
  | .ok r =>
    if c.tenantId ≠ key.tenantId ∨ c.interactionId ≠ key.interactionId ∨
        c.aggregateVersion ≠ next then .error [.divergentHistory]
    else .ok r

def replayRecords (key : Key) : Nat → List ParticipationCommand → Except Err (List Record)
  | _, [] => .ok []
  | next, c :: cs =>
    match replayRecord key next c with
    | .error e => .error e
    | .ok r =>
      match replayRecords key (next + 1) cs with
      | .error e => .error e
      | .ok rs => .ok (r :: rs)

/-- Whether the head that the authority names is the last command of the range it sent. -/
def headMatches (replay : ReplayResponse) (last : Record) : Bool :=
  replay.headVersion ≠ last.version ||
    (replay.headEventId = last.identity.eventId && replay.headHash = last.identity.hash.1)

def validateReplay (replay : Option ReplayResponse) (intent : Intent) (held : Record) :
    Except Err (List Record) :=
  match replay with
  | none => .error [.unknownHistory]
  | some replay =>
    if replay.historyFloor = 0 ∨ replay.provenance = "" ∨ replay.headVersion < intent.requestedTo ∨
        replay.commands.length ≠ intent.requestedTo - intent.requestedFrom + 1 then
      .error [.unknownHistory]
    else
      match replayRecords intent.key intent.requestedFrom replay.commands with
      | .error e => .error e
      | .ok records =>
        if ¬ records.getLast?.all (headMatches replay) then .error [.divergentHistory]
        else if ¬ records.any (fun r => r.version = held.version &&
            sameIdentity r.identity held.identity) then .error [.divergentHistory]
        else .ok records

def validateSnapshot (wire : Option SnapshotResponse) (intent : Intent) (held : Record) :
    Except Err Snapshot :=
  match wire with
  | none => .error [.unknownHistory]
  | some wire =>
    if h : wire.tenantId ≠ intent.key.tenantId ∨ wire.interactionId ≠ intent.key.interactionId ∨
        wire.aggregateVersion < intent.observedVersion ∨ wire.aggregateVersion < held.version ∨
        ¬ isUuidv7 wire.headEventId ∨ wire.headHash.length ≠ 32 ∨ wire.historyFloor = 0 ∨
        wire.aggregateVersion < wire.historyFloor ∨ wire.provenance = "" then
      .error [.unknownHistory]
    else if ¬ wire.participantIds.all isUuidv7 then .error [.invalid]
    else
      .ok { fold := { tenantId := wire.tenantId, interactionId := wire.interactionId,
                      version := wire.aggregateVersion,
                      identity := ⟨wire.headEventId, ⟨wire.headHash, by
                        simp only [not_or, not_not] at h
                        exact h.2.2.2.2.2.1⟩, []⟩,
                      participants := wire.participantIds.toFinset,
                      snapshotProvenance := wire.provenance },
            historyFloor := wire.historyFloor, provenance := wire.provenance }

theorem replayRecord_ok {key : Key} {next : Nat} (h : replayRecord key next c = .ok r) :
    r.key = key ∧ r.version = next := by
  unfold replayRecord at h
  split at h
  · cases h
  · next r' hc =>
      split at h
      · cases h
      · next hgood =>
          cases h
          simp only [not_or, not_not] at hgood
          simp [Record.key, Record.version, ParticipationCommand.key, canonical_ok hc, hgood]

theorem replayRecord_error {key : Key} {next : Nat} (h : replayRecord key next c = .error e) :
    e = [.divergentHistory] := by
  unfold replayRecord at h
  split at h
  · exact (Except.error.inj h).symm
  · split at h
    · exact (Except.error.inj h).symm
    · cases h

theorem replayRecords_ok {key : Key} :
    ∀ {next : Nat} {rs : List Record}, replayRecords key next cs = .ok rs →
      (∀ r ∈ rs, r.key = key) ∧ ∀ b, next = b + 1 → Consecutive Record.version b rs := by
  induction cs with
  | nil =>
    intro next rs h
    cases h
    exact ⟨by simp, fun _ _ => consecutive_nil⟩
  | cons c cs ih =>
    intro next rs h
    cases hc : replayRecord key next c with
    | error e => simp [replayRecords, hc] at h
    | ok r =>
      cases htail : replayRecords key (next + 1) cs with
      | error e => simp [replayRecords, hc, htail] at h
      | ok rs' =>
        have hrs : rs = r :: rs' := by simpa [replayRecords, hc, htail] using h.symm
        rcases ih htail with ⟨hkeys, hcons⟩
        rcases replayRecord_ok hc with ⟨hkey, hversion⟩
        subst hrs
        refine ⟨by simpa [hkey] using hkeys, ?_⟩
        intro b hb
        exact consecutive_cons.2 ⟨hversion.trans hb, hcons (b + 1) (by omega)⟩

theorem length_replayRecords {key : Key} :
    ∀ {next : Nat} {rs : List Record}, replayRecords key next cs = .ok rs → rs.length = cs.length := by
  induction cs with
  | nil =>
    intro next rs h
    cases h
    rfl
  | cons c cs ih =>
    intro next rs h
    cases hc : replayRecord key next c with
    | error e => simp [replayRecords, hc] at h
    | ok r =>
      cases htail : replayRecords key (next + 1) cs with
      | error e => simp [replayRecords, hc, htail] at h
      | ok rs' =>
        have hrs : rs = r :: rs' := by simpa [replayRecords, hc, htail] using h.symm
        simp [hrs, ih htail]

theorem replayRecords_error {key : Key} :
    ∀ {next : Nat} {e : Err}, replayRecords key next cs = .error e → e = [.divergentHistory] := by
  induction cs with
  | nil =>
    intro next e h
    cases h
  | cons c cs ih =>
    intro next e h
    cases hc : replayRecord key next c with
    | error e' =>
      have he : e' = e := by simpa [replayRecords, hc] using h
      exact he ▸ replayRecord_error hc
    | ok r =>
      cases htail : replayRecords key (next + 1) cs with
      | error e' =>
        have he : e' = e := by simpa [replayRecords, hc, htail] using h
        exact he ▸ ih htail
      | ok rs => simp [replayRecords, hc, htail] at h

structure Replayed (intent : Intent) (held : Record) (rs : List Record) : Prop where
  key : ∀ r ∈ rs, r.key = intent.key
  consecutive : ∀ b, intent.requestedFrom = b + 1 → Consecutive Record.version b rs
  length : rs.length = intent.requestedTo - intent.requestedFrom + 1
  held : ∃ r ∈ rs, r.version = held.version

variable {replay : Option ReplayResponse} {wire : Option SnapshotResponse}

theorem validateReplay_ok (h : validateReplay replay intent held = .ok rs) :
    Replayed intent held rs := by
  cases replay with
  | none => cases h
  | some replay =>
    unfold validateReplay at h
    dsimp only at h
    split at h
    · cases h
    · next hshape =>
      simp only [not_or, not_not] at hshape
      split at h
      · cases h
      · next records hrecords =>
          split at h
          · cases h
          · split at h
            · cases h
            · next hheld =>
                cases h
                rcases replayRecords_ok hrecords with ⟨hkeys, hcons⟩
                refine ⟨hkeys, hcons, (length_replayRecords hrecords).trans hshape.2.2.2, ?_⟩
                have hany : rs.any (fun r => r.version = held.version &&
                    sameIdentity r.identity held.identity) = true := by simpa using hheld
                rcases List.any_eq_true.1 hany with ⟨r, hr, hsame⟩
                simp only [Bool.and_eq_true, decide_eq_true_eq] at hsame
                exact ⟨r, hr, hsame.1⟩

theorem validateReplay_error (h : validateReplay replay intent held = .error e) :
    e = [.unknownHistory] ∨ e = [.divergentHistory] := by
  cases replay with
  | none => exact .inl (Except.error.inj h).symm
  | some replay =>
    unfold validateReplay at h
    dsimp only at h
    split at h
    · exact .inl (Except.error.inj h).symm
    · split at h
      · next e' hrecords =>
          cases h
          exact .inr (replayRecords_error hrecords)
      · split at h
        · exact .inr (Except.error.inj h).symm
        · split at h
          · exact .inr (Except.error.inj h).symm
          · cases h

structure Snapshotted (intent : Intent) (held : Record) (s : Snapshot) : Prop where
  key : s.fold.key = intent.key
  observed : intent.observedVersion ≤ s.fold.version
  held : held.version ≤ s.fold.version

theorem validateSnapshot_ok {s : Snapshot} (h : validateSnapshot wire intent held = .ok s) :
    Snapshotted intent held s := by
  cases wire with
  | none => cases h
  | some wire =>
    unfold validateSnapshot at h
    dsimp only at h
    split at h
    · cases h
    · next hshape =>
        simp only [not_or, not_not, Nat.not_lt] at hshape
        split at h
        · cases h
        · cases h
          refine ⟨?_, hshape.2.2.1, hshape.2.2.2.1⟩
          simp [Fold.key, hshape.1, hshape.2.1]

theorem validateSnapshot_error (h : validateSnapshot wire intent held = .error e) :
    e = [.unknownHistory] ∨ e = [.invalid] := by
  cases wire with
  | none => exact .inl (Except.error.inj h).symm
  | some wire =>
    unfold validateSnapshot at h
    dsimp only at h
    split at h
    · exact .inl (Except.error.inj h).symm
    · split at h
      · exact .inr (Except.error.inj h).symm
      · cases h

end RelayPoint.Participation
