import RelayPoint.Concurrency.Trace
import RelayPoint.Journal.Consumer
import RelayPoint.Signaling.Machine

/-!
# Replay — reading the whole log of an interaction

`jetstreamStore.Replay` chases the last sequence of a subject that others append to: it looks the
last message up, drains an ephemeral in-order consumer up to it, and looks again.  The model has one
step for each answer of the broker and one for each append of somebody else, in any order; a fetch
returns a batch of any size, and anything may fail.
-/

namespace RelayPoint.Signaling
namespace Replay

open Journal Concurrency.Trace

def replayFetchBatch : Nat := 256

inductive Point where
  | getLastMsg
  | pullSubscribe (target : Nat)
  | fetch (target : Nat)
  | returned (result : Except String (List Event × Nat))

structure State (Data : Type) where
  subject : String
  stream : List (Msg String String Data)
  out : List Event
  lastSubjSeq : Nat
  sub : Option Nat
  point : Point
  operations : Nat

def start {Data : Type} (subject : String) (stream : List (Msg String String Data)) : State Data where
  subject := subject
  stream := stream
  out := []
  lastSubjSeq := 0
  sub := none
  point := .getLastMsg
  operations := 0

/-- How the broker answers.  A fetch returns up to `size` messages; the metadata of those listed in
`unreadable` cannot be read. -/
inductive Answer where
  | done
  | fail (err : String)
  | batch (size : Nat) (unreadable : List (Nat × String))
  deriving DecidableEq

inductive Step (Data : Type) where
  | append (m : Msg String String Data)
  | answer (a : Answer)

section Model

variable {Data : Type} (unmarshal : Data → Except String Event)

def State.return (s : State Data) (result : Except String (List Event × Nat)) : State Data :=
  { s with point := .returned result }

def onLastMsg (s : State Data) (last : Nat) : State Data :=
  if last = 0 then s.return (.ok (s.out, s.lastSubjSeq))
  else if s.lastSubjSeq ≥ last then s.return (.ok (s.out, s.lastSubjSeq))
  else if s.sub = none then { s with point := .pullSubscribe last }
  else { s with point := .fetch last }

def absorb (subject : String) : List (Fetched String String Data) → List Event → Nat →
    Except String (List Event × Nat)
  | [], out, last => .ok (out, last)
  | m :: msgs, out, _ =>
    match m.sequence with
    | .error err => .error ("replay " ++ subject ++ ": no stream metadata: " ++ err)
    | .ok seq =>
      match unmarshal m.msg.payload with
      | .error err => .error ("replay " ++ subject ++ ": corrupt fact: " ++ err)
      | .ok e => absorb subject msgs (out ++ [e]) seq

def drained (s : State Data) (target : Nat) : String :=
  "replay " ++ s.subject ++ ": drained before target seq " ++ toString target ++ " (got " ++
    toString s.out.length ++ " facts)"

def onFetch (s : State Data) (target pos : Nat) (msgs : List (Fetched String String Data)) :
    State Data :=
  if msgs.length = 0 then s.return (.error (drained s target))
  else
    match absorb unmarshal s.subject msgs s.out s.lastSubjSeq with
    | .error err => s.return (.error err)
    | .ok (out, last) =>
      { s with
        out := out
        lastSubjSeq := last
        sub := some (pos + msgs.length)
        point := if last < target then .fetch target else .getLastMsg }

def perform (s : State Data) (a : Answer) : Option (State Data) :=
  match s.point, a with
  | .getLastMsg, .done => some (onLastMsg s (lastSeq s.subject s.stream))
  | .getLastMsg, .fail err => some (s.return (.error err))
  | .pullSubscribe target, .done => some { s with sub := some 0, point := .fetch target }
  | .pullSubscribe _, .fail err => some (s.return (.error err))
  | .fetch target, .batch size unreadable =>
    s.sub.map fun pos => onFetch unmarshal s target pos (fetched unreadable
      (batch (fun x => decide (x = s.subject)) 0 (min size replayFetchBatch) pos s.stream))
  | .fetch _, .fail err => some (s.return (.error err))
  | _, _ => none

def step (s : State Data) : Step Data → Option (State Data)
  | .append m => some { s with stream := s.stream ++ [m] }
  | .answer a => (perform unmarshal s a).map fun s' => { s' with operations := s.operations + 1 }

end Model

/-! ## What the call has read -/

section Invariant

variable {Data : Type} {unmarshal : Data → Except String Event} {s s' : State Data}
variable {s₀ : List (Msg String String Data)} {subject : String}

abbrev feedOf (subject : String) (stream : List (Msg String String Data)) :
    List (Delivered String String Data) :=
  feed (fun x => decide (x = subject)) 0 stream

def State.pos (s : State Data) : Nat :=
  s.sub.getD 0

/-- What has been handed out is decoded in `out`, and `lastSubjSeq` is where it ends. -/
structure Reads (unmarshal : Data → Except String Event) (s : State Data) : Prop where
  pos_le : s.pos ≤ (feedOf s.subject s.stream).length
  decoded : ((feedOf s.subject s.stream).take s.pos).map (fun d => unmarshal d.msg.payload) =
    s.out.map .ok
  ends : s.lastSubjSeq = endOf ((feedOf s.subject s.stream).take s.pos)

def Point.slack : Point → Nat
  | .getLastMsg => 1
  | .pullSubscribe _ => 2
  | .fetch _ => 3
  | .returned _ => 4

def Point.Fits (sub : Option Nat) : Point → Prop
  | .fetch _ => sub ≠ none
  | .pullSubscribe _ => sub = none
  | .getLastMsg | .returned _ => True

def Whole (s₀ : List (Msg String String Data)) (s : State Data) : Prop :=
  ∃ t, s₀ <+: t ∧ t <+: s.stream ∧ feedOf s.subject t = (feedOf s.subject s.stream).take s.pos

structure Inv (unmarshal : Data → Except String Event) (subject : String)
    (s₀ : List (Msg String String Data)) (s : State Data) : Prop where
  subject_eq : s.subject = subject
  grows : s₀ <+: s.stream
  reads : Reads unmarshal s
  fits : s.point.Fits s.sub
  counted : s.operations ≤ 3 * s.pos + s.point.slack
  returned : ∀ out n, s.point = .returned (.ok (out, n)) →
    out = s.out ∧ n = s.lastSubjSeq ∧ Whole s₀ s

theorem Inv.start : Inv unmarshal subject s₀ (start subject s₀) where
  subject_eq := rfl
  grows := List.prefix_refl _
  reads := ⟨by simp [State.pos, Replay.start], by simp [State.pos, Replay.start], rfl⟩
  fits := trivial
  counted := by simp [Replay.start]
  returned := by
    intro out n h
    cases h

theorem Inv.append (h : Inv unmarshal subject s₀ s) (m : Msg String String Data) :
    Inv unmarshal subject s₀ { s with stream := s.stream ++ [m] } := by
  have htake : (feedOf s.subject (s.stream ++ [m])).take s.pos =
      (feedOf s.subject s.stream).take s.pos := take_feed_append h.reads.pos_le
  have hfeed : feedOf s.subject s.stream <+: feedOf s.subject (s.stream ++ [m]) :=
    feed_isPrefixOf (List.prefix_append _ _)
  exact {
    subject_eq := h.subject_eq
    grows := h.grows.trans (List.prefix_append _ _)
    reads :=
      { pos_le := Nat.le_trans h.reads.pos_le hfeed.length_le
        decoded := (congrArg _ htake).trans h.reads.decoded
        ends := h.reads.ends.trans (congrArg endOf htake.symm) }
    fits := h.fits
    counted := h.counted
    returned := by
      intro out n hpoint
      rcases h.returned out n hpoint with ⟨hout, hn, t, hlo, hhi, hwhole⟩
      exact ⟨hout, hn, t, hlo, hhi.trans (List.prefix_append _ _), hwhole.trans htake.symm⟩ }

theorem Inv.move (h : Inv unmarshal subject s₀ s) {point : Point} (hfits : point.Fits s.sub)
    (hslack : s.point.slack + 1 ≤ point.slack) (hret : ∀ out n, point = .returned (.ok (out, n)) →
      out = s.out ∧ n = s.lastSubjSeq ∧ Whole s₀ s) :
    Inv unmarshal subject s₀ { s with point := point, operations := s.operations + 1 } where
  subject_eq := h.subject_eq
  grows := h.grows
  reads := ⟨h.reads.pos_le, h.reads.decoded, h.reads.ends⟩
  fits := hfits
  counted := by
    have hcount := h.counted
    change s.operations + 1 ≤ 3 * s.pos + point.slack
    omega
  returned := hret

theorem Inv.fail (h : Inv unmarshal subject s₀ s) {err : String} (hslack : s.point.slack ≤ 3) :
    Inv unmarshal subject s₀
      { s.return (.error err) with operations := s.operations + 1 } := by
  refine h.move trivial ?_ ?_
  · change s.point.slack + 1 ≤ 4
    omega
  · intro out n hpoint
    cases hpoint

theorem Inv.succeed (h : Inv unmarshal subject s₀ s) (hpoint : s.point = .getLastMsg)
    (hlast : lastSeq s.subject s.stream ≤ s.lastSubjSeq) :
    Inv unmarshal subject s₀
      { s.return (.ok (s.out, s.lastSubjSeq)) with operations := s.operations + 1 } := by
  refine h.move trivial ?_ ?_
  · change s.point.slack + 1 ≤ 4
    simp [hpoint, Point.slack]
  · intro out n hret
    cases hret
    refine ⟨rfl, rfl, s.stream, h.grows, List.prefix_refl _, ?_⟩
    refine (eq_feed_of_end_le (List.take_prefix _ _) ?_).symm
    rw [← h.reads.ends, ← lastSeq_eq_end]
    exact hlast

theorem Inv.onLastMsg (h : Inv unmarshal subject s₀ s) (hpoint : s.point = .getLastMsg) :
    Inv unmarshal subject s₀
      { onLastMsg s (lastSeq s.subject s.stream) with operations := s.operations + 1 } := by
  unfold Replay.onLastMsg
  split
  · next hnone => exact h.succeed hpoint (by omega)
  · split
    · next hcaught => exact h.succeed hpoint hcaught
    · split
      · next hsub =>
          refine h.move hsub ?_ ?_
          · simp [hpoint, Point.slack]
          · intro out n hp
            cases hp
      · next hsub =>
          refine h.move hsub ?_ ?_
          · simp [hpoint, Point.slack]
          · intro out n hp
            cases hp

theorem absorb_ok {unreadable : List (Nat × String)} {ds : List (Delivered String String Data)} :
    ∀ {out out' : List Event} {last last' : Nat},
      absorb unmarshal subject (fetched unreadable ds) out last = .ok (out', last') →
      out'.map .ok = out.map .ok ++ ds.map (fun d => unmarshal d.msg.payload) ∧
        last' = if ds = [] then last else endOf ds := by
  induction ds with
  | nil =>
    intro out out' last last' h
    cases h
    simp
  | cons d ds ih =>
    intro out out' last last' h
    rcases fetched_cons with hd | ⟨err, hd⟩
    · rw [hd] at h
      simp only [absorb] at h
      split at h
      · cases h
      · next e he =>
          rcases ih h with ⟨hout, hlast⟩
          refine ⟨by simp [hout, he], ?_⟩
          by_cases hds : ds = []
          · simpa [hds, endOf] using hlast
          · have hend : endOf (d :: ds) = endOf ds :=
              endOf_append (l := [d]) hds
            simpa [hds, hend] using hlast
    · rw [hd] at h
      cases h

theorem Inv.onFetch (h : Inv unmarshal subject s₀ s) {target pos size : Nat}
    (hpoint : s.point = .fetch target) (hsub : s.sub = some pos) {unreadable : List (Nat × String)} :
    Inv unmarshal subject s₀
      { onFetch unmarshal s target pos (fetched unreadable
          (batch (fun x => decide (x = s.subject)) 0 size pos s.stream)) with
        operations := s.operations + 1 } := by
  have hpos : s.pos = pos := by simp [State.pos, hsub]
  have hreads := h.reads
  have hcount := h.counted
  simp only [hpoint, Point.slack] at hcount
  rcases hreads with ⟨hle, hdecoded, hends⟩
  rw [hpos] at hle hdecoded hends
  unfold Replay.onFetch
  split
  · exact h.fail (by simp [hpoint, Point.slack])
  · next hlen =>
      split
      · exact h.fail (by simp [hpoint, Point.slack])
      · next out last habsorb =>
          rcases absorb_ok habsorb with ⟨hout, hlast⟩
          rw [fetched_length] at hlen ⊢
          have hne : batch (fun x => decide (x = s.subject)) 0 size pos s.stream ≠ [] :=
            fun hnil => hlen (by simp [hnil])
          -- what was read before, followed by the batch
          have htake : (feedOf s.subject s.stream).take
                (pos + (batch (fun x => decide (x = s.subject)) 0 size pos s.stream).length) =
              (feedOf s.subject s.stream).take pos ++
                batch (fun x => decide (x = s.subject)) 0 size pos s.stream := take_add_batch
          exact {
            subject_eq := h.subject_eq
            grows := h.grows
            reads :=
              { pos_le := add_batch_le hle
                decoded := by
                  change ((feedOf s.subject s.stream).take (pos + _)).map _ = _
                  rw [htake, List.map_append, hdecoded, hout]
                ends := by
                  change last = endOf ((feedOf s.subject s.stream).take (pos + _))
                  rw [htake, endOf_append hne, hlast, if_neg hne] }
            fits := by
              by_cases hlt : last < target
              all_goals simp [hlt, Point.Fits]
            counted := by
              change s.operations + 1 ≤ 3 * (pos + _) + Point.slack _
              by_cases hlt : last < target
              · simp only [hlt, if_true, Point.slack]
                omega
              · simp only [hlt, if_false, Point.slack]
                omega
            returned := by
              intro out' n hret
              by_cases hlt : last < target
              · simp [hlt] at hret
              · simp [hlt] at hret }

theorem Inv.perform (h : Inv unmarshal subject s₀ s) {a : Answer}
    (hstep : perform unmarshal s a = some s') :
    Inv unmarshal subject s₀ { s' with operations := s.operations + 1 } := by
  unfold Replay.perform at hstep
  split at hstep
  · next hpoint =>
      cases hstep
      exact h.onLastMsg hpoint
  · next hpoint =>
      cases hstep
      exact h.fail (by simp [hpoint, Point.slack])
  · next target hpoint =>
      cases hstep
      have hsub : s.sub = none := by
        have hfits := h.fits
        rw [hpoint] at hfits
        exact hfits
      -- the new consumer is at the position that stood for having none
      have hpos : s.pos = 0 := by simp [State.pos, hsub]
      have hreads := h.reads
      have hcount := h.counted
      rw [hpoint] at hcount
      exact {
        subject_eq := h.subject_eq
        grows := h.grows
        reads := ⟨hpos ▸ hreads.pos_le, hpos ▸ hreads.decoded, hpos ▸ hreads.ends⟩
        fits := by simp [Point.Fits]
        counted := by
          change s.operations + 1 ≤ 3 * 0 + 3
          simp only [Point.slack] at hcount
          omega
        returned := by
          intro out n hp
          cases hp }
  · next hpoint =>
      cases hstep
      exact h.fail (by simp [hpoint, Point.slack])
  · next target size unreadable hpoint =>
      rcases Option.map_eq_some_iff.1 hstep with ⟨pos, hsub, rfl⟩
      exact h.onFetch hpoint hsub
  · next hpoint =>
      cases hstep
      exact h.fail (by simp [hpoint, Point.slack])
  · cases hstep

theorem Inv.reached (h : Reaches (step unmarshal) (fun _ _ => True) (Replay.start subject s₀) s) :
    Inv unmarshal subject s₀ s := by
  refine h.invariant Inv.start ?_
  intro s s' e hinv _ hstep
  cases e with
  | append m =>
    cases hstep
    exact hinv.append m
  | answer a =>
    rcases Option.map_eq_some_iff.1 hstep with ⟨s'', hperform, rfl⟩
    exact hinv.perform hperform

end Invariant

/-! ## Whole calls -/

section Calls

variable {Data : Type} {unmarshal : Data → Except String Event} {s : State Data}
variable {s₀ : List (Msg String String Data)} {subject : String} {out : List Event} {n : Nat}

theorem Reads.decoded_log {t : List (Msg String String Data)} (h : Reads unmarshal s)
    (ht : feedOf s.subject t = (feedOf s.subject s.stream).take s.pos) :
    (log s.subject t).map (fun m => unmarshal m.payload) = s.out.map .ok := by
  have hlog : log s.subject t = ((feedOf s.subject s.stream).take s.pos).map Delivered.msg := by
    rw [← ht]
    exact map_msg_feed.symm
  rw [hlog, List.map_map]
  exact h.decoded

theorem replay_atomic (h : Reaches (step unmarshal) (fun _ _ => True) (start subject s₀) s)
    (hret : s.point = .returned (.ok (out, n))) :
    ∃ t, s₀ <+: t ∧ t <+: s.stream ∧
      (log subject t).map (fun m => unmarshal m.payload) = out.map .ok ∧ n = lastSeq subject t := by
  have hinv := Inv.reached h
  rcases hinv.returned out n hret with ⟨rfl, rfl, t, hlo, hhi, hwhole⟩
  have hdecoded := hinv.reads.decoded_log hwhole
  have hends := hinv.reads.ends
  rw [← hwhole, ← lastSeq_eq_end] at hends
  rw [hinv.subject_eq] at hdecoded hends
  exact ⟨t, hlo, hhi, hdecoded, hends⟩

/-- A call that succeeds answers what the machine of the router reads in one step, from the stream as
it was at some moment of the call. -/
theorem replay_answer {s₀ : List (Msg String String Fact)} {s : State Fact}
    (h : Reaches (step fun f : Fact => .ok f.event) (fun _ _ => True) (start subject s₀) s)
    (hret : s.point = .returned (.ok (out, n))) :
    ∃ t, s₀ <+: t ∧ t <+: s.stream ∧ ∀ (w : World) (site : ReplaySite), w.broker.stream = t →
      machine.perform w (.replay site subject) .go = some (some (out, n), w) := by
  rcases replay_atomic h hret with ⟨t, hlo, hhi, hdecoded, hlast⟩
  refine ⟨t, hlo, hhi, ?_⟩
  intro w site hw
  have hfacts : (factsOf w.broker subject).map Fact.event = out := by
    have hok : ((log subject t).map fun m => m.payload.event).map
        (fun e => (.ok e : Except String Event)) = out.map .ok := by
      simpa [Function.comp_def] using hdecoded
    have hinj := (List.map_injective_iff.2 fun _ _ heq => Except.ok.inj heq) hok
    simpa [factsOf, hw, Function.comp_def] using hinj
  change some (some ((factsOf w.broker subject).map Fact.event, lastSeq subject w.broker.stream), w) =
    some (some (out, n), w)
  rw [hfacts, hw, hlast]

/-- Whatever is appended meanwhile and however the messages are batched: a call that succeeds returns
exactly the facts of the subject up to the sequence it returns, which is that of the last of them and
not below the subject's last sequence when the call began.  The call makes at most three operations
for each message of the subject and four more, and until it has returned it goes on with any answer. -/
theorem replay_complete (h : Reaches (step unmarshal) (fun _ _ => True) (start subject s₀) s) :
    (∀ out n, s.point = .returned (.ok (out, n)) →
      (log subject (s.stream.take n)).map (fun m => unmarshal m.payload) = out.map .ok ∧
      n = lastSeq subject (s.stream.take n) ∧ lastSeq subject s₀ ≤ n) ∧
    s.operations ≤ 3 * (log subject s.stream).length + 4 ∧
    ((∀ result, s.point ≠ .returned result) →
      ∃ a s', step unmarshal s (.answer a) = some s') := by
  have hinv := Inv.reached h
  refine ⟨?_, ?_, ?_⟩
  · intro out n hret
    rcases hinv.returned out n hret with ⟨rfl, rfl, t, hlo, _, hwhole⟩
    have hends := hinv.reads.ends
    have hfeed : feedOf s.subject (s.stream.take s.lastSubjSeq) =
        (feedOf s.subject s.stream).take s.pos := by
      rw [hends]
      exact feed_take_endOf (List.take_prefix _ _)
    have hdecoded := hinv.reads.decoded_log hfeed
    have hlast : s.lastSubjSeq = lastSeq s.subject (s.stream.take s.lastSubjSeq) := by
      calc s.lastSubjSeq = endOf ((feedOf s.subject s.stream).take s.pos) := hends
        _ = endOf (feedOf s.subject (s.stream.take s.lastSubjSeq)) := by rw [hfeed]
        _ = lastSeq s.subject (s.stream.take s.lastSubjSeq) := lastSeq_eq_end.symm
    have hcall : lastSeq s.subject s₀ ≤ s.lastSubjSeq := by
      calc lastSeq s.subject s₀ = endOf (feedOf s.subject s₀) := lastSeq_eq_end
        _ ≤ endOf (feedOf s.subject t) := endOf_le (feed_isPrefixOf hlo)
        _ = s.lastSubjSeq := by rw [hwhole, hends]
    rw [hinv.subject_eq] at hdecoded hlast hcall
    exact ⟨hdecoded, hlast, hcall⟩
  · have hlen : (feedOf s.subject s.stream).length = (log subject s.stream).length := by
      rw [← hinv.subject_eq, ← map_msg_feed, List.length_map]
    have hslack : s.point.slack ≤ 4 := by
      cases s.point <;> simp [Point.slack]
    calc s.operations ≤ 3 * s.pos + s.point.slack := hinv.counted
      _ ≤ 3 * (feedOf s.subject s.stream).length + 4 :=
          Nat.add_le_add (Nat.mul_le_mul_left 3 hinv.reads.pos_le) hslack
      _ = 3 * (log subject s.stream).length + 4 := by rw [hlen]
  · intro hrunning
    refine ⟨.fail "", ?_⟩
    cases hpoint : s.point with
    | returned result => exact absurd hpoint (hrunning result)
    | _ => simp [step, perform, hpoint]

end Calls

def State.result {Data : Type} (s : State Data) : Option (List Event × Nat) :=
  match s.point with
  | .returned (.ok result) => some result
  | _ => none

theorem State.point_of_result {Data : Type} {s : State Data} {r : List Event × Nat}
    (h : s.result = some r) : s.point = .returned (.ok r) := by
  unfold result at h
  split at h
  · next hpoint =>
      cases h
      exact hpoint
  · cases h

namespace Scenario

def named (id : String) : Except String Event :=
  if id = "" then .error "empty"
  else .ok ⟨schemaV1, "message", id, 1, 0, "t", "A", "chat", id, "", id, "", [], "", "", ""⟩

/-- The first fact is fetched; meanwhile another subject and then the subject itself gain a message,
which the second lookup finds. -/
def straggler : List (Step String) :=
  [.answer .done, .answer .done, .append ⟨"b", "2", "y"⟩, .append ⟨"a", "3", "z"⟩,
    .answer (.batch 1 []), .answer .done, .answer (.batch 9 []), .answer .done]

def fact (id : String) : Fact :=
  ⟨⟨⟨"t", "A", "", ""⟩, none⟩,
    ⟨schemaV1, "message", id, 1, 0, "t", "A", "chat", id, "", id, "", [], "", "", ""⟩⟩

def growing : List (Step Fact) :=
  [.answer .done, .answer .done, .append ⟨"a", "2", fact "y"⟩, .answer (.batch 9 []), .answer .done]

end Scenario

open Scenario in
theorem replay_complete_straggler : ∃ (s : State String) (out : List Event),
    Reaches (step named) (fun _ _ => True) (start "a" [⟨"a", "1", "x"⟩]) s ∧
      s.point = .returned (.ok (out, 3)) ∧ out.map Event.eventId = ["x", "z"] ∧
      (log "a" (s.stream.take 3)).map (fun m => named m.payload) = out.map .ok ∧
      3 = lastSeq "a" (s.stream.take 3) ∧
      s.operations ≤ 3 * (log "a" s.stream).length + 4 := by
  have hrun : (execute (step named) (fun _ _ => True) straggler (start "a" [⟨"a", "1", "x"⟩])).map
      (fun s => s.result.map fun r => (r.1.map Event.eventId, r.2)) = some (some (["x", "z"], 3)) := by
    decide +kernel
  rcases exists_of_execute hrun with ⟨s, hreach, hresult⟩
  rcases Option.map_eq_some_iff.1 hresult with ⟨⟨out, n⟩, hsome, hpair⟩
  rcases Prod.mk.inj hpair with ⟨hids, rfl⟩
  have hpoint := State.point_of_result hsome
  rcases replay_complete hreach with ⟨hread, hcount, _⟩
  rcases hread out 3 hpoint with ⟨hfacts, hlast, _⟩
  exact ⟨s, out, hreach, hpoint, hids, hfacts, hlast, hcount⟩

open Scenario in
theorem replay_answer_growing : ∃ (s : State Fact) (out : List Event),
    Reaches (step fun f : Fact => .ok f.event) (fun _ _ => True)
      (start "a" [⟨"a", "1", fact "x"⟩]) s ∧
      s.point = .returned (.ok (out, 2)) ∧ out.map Event.eventId = ["x", "y"] ∧
      ∃ t, t <+: s.stream ∧ ∀ (w : World) (site : ReplaySite), w.broker.stream = t →
        machine.perform w (.replay site "a") .go = some (some (out, 2), w) := by
  have hrun : (execute (step fun f : Fact => .ok f.event) (fun _ _ => True) growing
      (start "a" [⟨"a", "1", fact "x"⟩])).map
      (fun s => s.result.map fun r => (r.1.map Event.eventId, r.2)) = some (some (["x", "y"], 2)) := by
    decide +kernel
  rcases exists_of_execute hrun with ⟨s, hreach, hresult⟩
  rcases Option.map_eq_some_iff.1 hresult with ⟨⟨out, n⟩, hsome, hpair⟩
  rcases Prod.mk.inj hpair with ⟨hids, rfl⟩
  have hpoint := State.point_of_result hsome
  rcases replay_answer hreach hpoint with ⟨t, _, hhi, hanswer⟩
  exact ⟨s, out, hreach, hpoint, hids, t, hhi, hanswer⟩

end Replay
end RelayPoint.Signaling
