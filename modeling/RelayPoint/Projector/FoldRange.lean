import RelayPoint.Concurrency.Trace
import RelayPoint.Data.Pattern
import RelayPoint.Journal.Consumer
import RelayPoint.Projector.Machine

/-!
# FoldRange — reading the tail of the log for hydration

`jsLogSource.FoldRange(lo, hi)` reads the facts between the snapshot and the ack floor with a
throwaway in-order consumer.  The model has one step for each answer of the broker and one for each
append of somebody else.
-/

namespace RelayPoint.Projector
namespace FoldRange

open Journal Signaling Concurrency.Trace

def logSubjects : List (Pattern.Token String) :=
  [.literal "tenant", .any, .literal "interaction", .any, .literal "log"]

def isLogSubject (subject : String) : Bool :=
  decide (Pattern.Matches logSubjects (splitDot subject))

def iidFromLogSubject (s : String) : String :=
  match splitDot s with
  | [p0, _, p2, iid, p4] => if p0 = "tenant" ∧ p2 = "interaction" ∧ p4 = "log" then iid else ""
  | _ => ""

inductive Point where
  | pullSubscribe
  | fetch
  | returned (result : Except String (List Fact))

structure State (Data : Type) where
  lo : Nat
  hi : Nat
  stream : List (Msg String String Data)
  out : List Fact
  pos : Nat
  point : Point
  operations : Nat

def start {Data : Type} (lo hi : Nat) (stream : List (Msg String String Data)) : State Data where
  lo := lo
  hi := hi
  stream := stream
  out := []
  pos := 0
  point := if hi ≤ lo then .returned (.ok []) else .pullSubscribe
  operations := 0

inductive Answer where
  | done
  | timeout
  | fail (err : String)
  /-- Up to `size` messages; the metadata of those listed in `unreadable` cannot be read. -/
  | batch (size : Nat) (unreadable : List (Nat × String))
  deriving DecidableEq

inductive Step (Data : Type) where
  | append (m : Msg String String Data)
  | answer (a : Answer)

section Model

variable {Data : Type} (unmarshal : Data → Option Event)

def State.return (s : State Data) (result : Except String (List Fact)) : State Data :=
  { s with point := .returned result }

def collect (hi : Nat) : List (Fetched String String Data) → List Fact →
    Except String (List Fact × Bool)
  | [], out => .ok (out, false)
  | m :: msgs, out =>
    match m.sequence with
    | .error err => .error err
    | .ok seq =>
      if seq > hi then .ok (out, true)
      else
        match unmarshal m.msg.payload with
        | none => collect hi msgs out
        | some e => collect hi msgs (out ++ [⟨some e, iidFromLogSubject m.msg.subject, seq⟩])

/-- After `Fetch` returned messages; no messages end the loop as a timeout does. -/
def onFetch (s : State Data) (msgs : List (Fetched String String Data)) : State Data :=
  if msgs.length = 0 then s.return (.ok s.out)
  else
    match collect unmarshal s.hi msgs s.out with
    | .error err => s.return (.error err)
    | .ok (out, true) => s.return (.ok out)
    | .ok (out, false) => { s with out := out, pos := s.pos + msgs.length }

def perform (s : State Data) (a : Answer) : Option (State Data) :=
  match s.point, a with
  | .pullSubscribe, .done => some { s with point := .fetch }
  | .pullSubscribe, .fail err => some (s.return (.error err))
  | .fetch, .timeout => some (s.return (.ok s.out))
  | .fetch, .fail err => some (s.return (.error err))
  | .fetch, .batch size unreadable =>
    some (onFetch unmarshal s
      (fetched unreadable (batch isLogSubject s.lo (min size 128) s.pos s.stream)))
  | _, _ => none

def step (s : State Data) : Step Data → Option (State Data)
  | .append m => some { s with stream := s.stream ++ [m] }
  | .answer a => (perform unmarshal s a).map fun s' => { s' with operations := s.operations + 1 }

/-! ## What the call should return -/

def decodeFact (d : Delivered String String Data) : Option Fact :=
  (unmarshal d.msg.payload).map fun e => ⟨some e, iidFromLogSubject d.msg.subject, d.seq⟩

def rangeFacts (lo hi : Nat) (stream : List (Msg String String Data)) : List Fact :=
  (feed isLogSubject lo (stream.take hi)).filterMap (decodeFact unmarshal)

def Drained (s : State Data) : Prop :=
  ∀ d ∈ (feed isLogSubject s.lo s.stream).drop s.pos, s.hi < d.seq
  deriving Decidable

def Patient (s : State Data) : Step Data → Prop
  | .answer .timeout => Drained s
  | .answer (.batch size _) => size = 0 → Drained s
  | _ => True

end Model

/-! ## The invariant -/

section Invariant

variable {Data : Type} {unmarshal : Data → Option Event} {s s' : State Data}
variable {s₀ : List (Msg String String Data)} {lo hi : Nat}

def Point.slack : Point → Nat
  | .pullSubscribe => 0
  | .fetch => 1
  | .returned _ => 2

/-- Everything handed out so far is in the range and collected; an answer is the whole range. -/
structure Inv (unmarshal : Data → Option Event) (lo hi : Nat) (s₀ : List (Msg String String Data))
    (s : State Data) : Prop where
  lo_eq : s.lo = lo
  hi_eq : s.hi = hi
  grows : s₀ <+: s.stream
  pos_le : s.pos ≤ (feed isLogSubject lo s.stream).length
  within : ∀ d ∈ (feed isLogSubject lo s.stream).take s.pos, d.seq ≤ hi
  collected : s.out = ((feed isLogSubject lo s.stream).take s.pos).filterMap (decodeFact unmarshal)
  counted : s.operations ≤ s.pos + s.point.slack
  returned : ∀ facts, s.point = .returned (.ok facts) → facts = rangeFacts unmarshal lo hi s₀

theorem rangeFacts_of_le (h : hi ≤ lo) : rangeFacts unmarshal lo hi s₀ = [] := by
  have hnone : feed isLogSubject lo (s₀.take hi) = [] := by
    refine List.eq_nil_iff_forall_not_mem.2 ?_
    intro d hd
    rcases seq_of_mem_feedFrom hd with ⟨_, hle, hlt⟩
    have hlen : (s₀.take hi).length ≤ hi := List.length_take_le hi s₀
    omega
  simp [rangeFacts, hnone]

theorem Inv.start : Inv unmarshal lo hi s₀ (start lo hi s₀) where
  lo_eq := rfl
  hi_eq := rfl
  grows := List.prefix_refl _
  pos_le := Nat.zero_le _
  within := by simp [FoldRange.start]
  collected := by simp [FoldRange.start]
  counted := Nat.zero_le _
  returned := by
    intro facts hret
    by_cases hle : hi ≤ lo
    · simp only [FoldRange.start, hle] at hret
      cases hret
      exact (rangeFacts_of_le hle).symm
    · simp [FoldRange.start, hle] at hret

theorem Inv.append (h : Inv unmarshal lo hi s₀ s) (m : Msg String String Data) :
    Inv unmarshal lo hi s₀ { s with stream := s.stream ++ [m] } := by
  have htake : (feed isLogSubject lo (s.stream ++ [m])).take s.pos =
      (feed isLogSubject lo s.stream).take s.pos := take_feed_append h.pos_le
  have hfeed : feed isLogSubject lo s.stream <+: feed isLogSubject lo (s.stream ++ [m]) :=
    feed_isPrefixOf (List.prefix_append _ _)
  exact {
    lo_eq := h.lo_eq
    hi_eq := h.hi_eq
    grows := h.grows.trans (List.prefix_append _ _)
    pos_le := Nat.le_trans h.pos_le hfeed.length_le
    within := fun d hd => h.within d (htake ▸ hd)
    collected := h.collected.trans (by rw [htake])
    counted := h.counted
    returned := h.returned }

theorem Inv.move (h : Inv unmarshal lo hi s₀ s) {point : Point}
    (hslack : s.point.slack + 1 ≤ point.slack)
    (hret : ∀ facts, point = .returned (.ok facts) → facts = rangeFacts unmarshal lo hi s₀) :
    Inv unmarshal lo hi s₀ { s with point := point, operations := s.operations + 1 } where
  lo_eq := h.lo_eq
  hi_eq := h.hi_eq
  grows := h.grows
  pos_le := h.pos_le
  within := h.within
  collected := h.collected
  counted := by
    have hcount := h.counted
    change s.operations + 1 ≤ s.pos + point.slack
    omega
  returned := hret

theorem Inv.fail (h : Inv unmarshal lo hi s₀ s) {err : String} (hslack : s.point.slack ≤ 1) :
    Inv unmarshal lo hi s₀ { s.return (.error err) with operations := s.operations + 1 } := by
  refine h.move (Nat.succ_le_succ hslack) ?_
  intro facts hret
  cases hret

theorem Inv.take_eq (h : Inv unmarshal lo hi s₀ s) (hhi : hi ≤ s₀.length) :
    s.stream.take hi = s₀.take hi := by
  rcases h.grows with ⟨t, ht⟩
  rw [← ht, List.take_append_of_le_length hhi]

theorem Inv.succeed (h : Inv unmarshal lo hi s₀ s) (hhi : hi ≤ s₀.length)
    (hpoint : s.point = .fetch) {l r : List (Delivered String String Data)}
    (hfeed : feed isLogSubject lo s.stream = l ++ r) (hlo : ∀ d ∈ l, d.seq ≤ hi)
    (hpast : ∀ d ∈ r, hi < d.seq) {facts : List Fact}
    (hfacts : facts = l.filterMap (decodeFact unmarshal)) :
    Inv unmarshal lo hi s₀ { s.return (.ok facts) with operations := s.operations + 1 } := by
  refine h.move ?_ ?_
  · rw [hpoint]
    exact Nat.le_refl 2
  · intro facts' hret
    cases hret
    rw [hfacts, rangeFacts, ← h.take_eq hhi, feed_take_of_split hfeed hlo hpast]

theorem Inv.drained (h : Inv unmarshal lo hi s₀ s) (hhi : hi ≤ s₀.length)
    (hpoint : s.point = .fetch) (hdrained : Drained s) :
    Inv unmarshal lo hi s₀ { s.return (.ok s.out) with operations := s.operations + 1 } := by
  unfold Drained at hdrained
  rw [h.lo_eq, h.hi_eq] at hdrained
  exact h.succeed hhi hpoint (List.take_append_drop s.pos _).symm h.within hdrained h.collected

/-! ## A batch -/

theorem collect_ok {unreadable : List (Nat × String)} {ds : List (Delivered String String Data)} :
    ∀ {out out' : List Fact} {past : Bool},
      collect unmarshal hi (fetched unreadable ds) out = .ok (out', past) →
      ∃ l r, ds = l ++ r ∧ (∀ d ∈ l, d.seq ≤ hi) ∧
        out' = out ++ l.filterMap (decodeFact unmarshal) ∧
        (past = false → r = []) ∧ (past = true → ∃ d r', r = d :: r' ∧ hi < d.seq) := by
  induction ds with
  | nil =>
    intro out out' past h
    cases h
    exact ⟨[], [], by simp⟩
  | cons d ds ih =>
    intro out out' past h
    rcases fetched_cons with hd | ⟨err, hd⟩
    · rw [hd] at h
      simp only [collect] at h
      split at h
      · next hpast =>
          cases h
          exact ⟨[], d :: ds, by simp, by simp, by simp, by simp, fun _ => ⟨d, ds, rfl, hpast⟩⟩
      · next hwithin =>
          -- the message is in the range; whether it is decodable decides what it adds
          have hcons : ∀ {out₁}, out₁ = out ++ [d].filterMap (decodeFact unmarshal) →
              collect unmarshal hi (fetched unreadable ds) out₁ = .ok (out', past) →
              ∃ l r, d :: ds = l ++ r ∧ (∀ d ∈ l, d.seq ≤ hi) ∧
                out' = out ++ l.filterMap (decodeFact unmarshal) ∧
                (past = false → r = []) ∧ (past = true → ∃ d r', r = d :: r' ∧ hi < d.seq) := by
            intro out₁ hout₁ hrest
            rcases ih hrest with ⟨l, r, hds, hl, hout, hfalse, htrue⟩
            refine ⟨d :: l, r, by simp [hds], ?_, ?_, hfalse, htrue⟩
            · intro x hx
              rcases List.mem_cons.1 hx with rfl | hx
              · omega
              · exact hl x hx
            · rw [hout, hout₁, List.append_assoc, ← List.filterMap_append, List.singleton_append]
          split at h
          · next hnone => exact hcons (by simp [decodeFact, hnone]) h
          · next e he => exact hcons (by simp [decodeFact, he]) h
    · rw [hd] at h
      cases h

theorem Inv.onFetch (h : Inv unmarshal lo hi s₀ s) (hhi : hi ≤ s₀.length)
    (hpoint : s.point = .fetch) {size : Nat} {unreadable : List (Nat × String)}
    (hpatient : size = 0 → Drained s) :
    Inv unmarshal lo hi s₀
      { onFetch unmarshal s (fetched unreadable
          (batch isLogSubject s.lo (min size 128) s.pos s.stream)) with
        operations := s.operations + 1 } := by
  have hslack : s.point.slack ≤ 1 := by simp [hpoint, Point.slack]
  have htake : (feed isLogSubject lo s.stream).take
        (s.pos + (batch isLogSubject lo (min size 128) s.pos s.stream).length) =
      (feed isLogSubject lo s.stream).take s.pos ++
        batch isLogSubject lo (min size 128) s.pos s.stream := take_add_batch
  unfold FoldRange.onFetch
  rw [fetched_length, h.lo_eq, h.hi_eq]
  split
  · next hlen =>
      -- an empty batch: nothing was asked for, or nothing is left
      refine h.drained hhi hpoint ?_
      by_cases hsize : size = 0
      · exact hpatient hsize
      · intro d hd
        rw [h.lo_eq] at hd
        have hpos : 0 < ((feed isLogSubject lo s.stream).drop s.pos).length :=
          List.length_pos_of_mem hd
        simp only [batch, List.length_take] at hlen
        omega
  · next hlen =>
      split
      · exact h.fail hslack
      · next out hcollect =>
          rcases collect_ok hcollect with ⟨l, r, hbatch, hl, hout, _, htrue⟩
          rcases htrue rfl with ⟨d, r', rfl, hd⟩
          -- the feed: what was read, the batch up to the message past the range, and the rest
          have hfeed : feed isLogSubject lo s.stream =
              ((feed isLogSubject lo s.stream).take s.pos ++ l) ++ (d :: (r' ++
                (feed isLogSubject lo s.stream).drop (s.pos +
                  (batch isLogSubject lo (min size 128) s.pos s.stream).length))) := by
            conv_lhs => rw [← List.take_append_drop (s.pos +
              (batch isLogSubject lo (min size 128) s.pos s.stream).length)
              (feed isLogSubject lo s.stream), htake]
            nth_rewrite 1 [hbatch]
            simp
          refine h.succeed hhi hpoint hfeed ?_ ?_ ?_
          · intro x hx
            rcases List.mem_append.1 hx with hx | hx
            · exact h.within x hx
            · exact hl x hx
          · intro x hx
            rcases List.mem_cons.1 hx with rfl | hx
            · exact hd
            · exact Nat.lt_trans hd (lt_seq_of_split hfeed x hx)
          · rw [hout, h.collected, List.filterMap_append]
      · next out hcollect =>
          rcases collect_ok hcollect with ⟨l, r, hbatch, hl, hout, hfalse, _⟩
          have hr := hfalse rfl
          rw [hr, List.append_nil] at hbatch
          have hcount := h.counted
          exact {
            lo_eq := rfl
            hi_eq := rfl
            grows := h.grows
            pos_le := add_batch_le h.pos_le
            within := by
              intro x hx
              rw [htake] at hx
              rcases List.mem_append.1 hx with hx | hx
              · exact h.within x hx
              · exact hl x (hbatch ▸ hx)
            collected := by
              rw [htake, List.filterMap_append, ← h.collected, hbatch]
              exact hout
            counted := by
              change s.operations + 1 ≤ s.pos + _ + s.point.slack
              omega
            returned := by
              intro facts hret
              rw [hpoint] at hret
              cases hret }

theorem Inv.perform (h : Inv unmarshal lo hi s₀ s) (hhi : hi ≤ s₀.length) {a : Answer}
    (hpatient : Patient s (.answer a)) (hstep : perform unmarshal s a = some s') :
    Inv unmarshal lo hi s₀ { s' with operations := s.operations + 1 } := by
  unfold FoldRange.perform at hstep
  split at hstep
  · next hpoint =>
      cases hstep
      refine h.move ?_ ?_
      · rw [hpoint]
        exact Nat.le_refl 1
      · intro facts hret
        cases hret
  · next hpoint =>
      cases hstep
      exact h.fail (by simp [hpoint, Point.slack])
  · next hpoint =>
      cases hstep
      exact h.drained hhi hpoint hpatient
  · next hpoint =>
      cases hstep
      exact h.fail (by simp [hpoint, Point.slack])
  · next hpoint =>
      cases hstep
      exact h.onFetch hhi hpoint hpatient
  · cases hstep

theorem Inv.reached (hhi : hi ≤ s₀.length)
    (h : Reaches (step unmarshal) Patient (FoldRange.start lo hi s₀) s) :
    Inv unmarshal lo hi s₀ s := by
  refine h.invariant Inv.start ?_
  intro s s' e hinv hpatient hstep
  cases e with
  | append m =>
    cases hstep
    exact hinv.append m
  | answer a =>
    rcases Option.map_eq_some_iff.1 hstep with ⟨s'', hperform, rfl⟩
    exact hinv.perform hhi hpatient hperform

theorem Inv.pos_le_range (h : Inv unmarshal lo hi s₀ s) (hhi : hi ≤ s₀.length) :
    s.pos ≤ (feed isLogSubject lo (s₀.take hi)).length := by
  have hread : (feed isLogSubject lo s.stream).take s.pos =
      ((feed isLogSubject lo s.stream).take s.pos).filter fun d => d.seq ≤ hi :=
    (List.filter_eq_self.2 fun d hd => decide_eq_true (h.within d hd)).symm
  calc s.pos = ((feed isLogSubject lo s.stream).take s.pos).length :=
        (List.length_take_of_le h.pos_le).symm
    _ = (((feed isLogSubject lo s.stream).take s.pos).filter fun d => d.seq ≤ hi).length :=
        congrArg List.length hread
    _ ≤ ((feed isLogSubject lo s.stream).filter fun d => d.seq ≤ hi).length :=
        ((List.take_sublist _ _).filter _).length_le
    _ = (feed isLogSubject lo (s₀.take hi)).length := by rw [← feed_take, h.take_eq hhi]

end Invariant

/-! ## Whole calls, and what hydration makes of them -/

section Calls

variable {Data : Type} {unmarshal : Data → Option Event} {s : State Data}
variable {s₀ : List (Msg String String Data)} {lo hi : Nat}

theorem rangeFacts_append (h : lo ≤ hi) :
    rangeFacts unmarshal 0 hi s₀ = rangeFacts unmarshal 0 lo s₀ ++ rangeFacts unmarshal lo hi s₀ := by
  simp only [rangeFacts, feed_take_append h, List.filterMap_append]

def deliveredFacts (unmarshal : Data → Option Event) (stream : List (Msg String String Data)) :
    List Fact :=
  (feed isLogSubject 0 stream).map fun d =>
    ⟨unmarshal d.msg.payload, iidFromLogSubject d.msg.subject, d.seq⟩

theorem range_eq {w : World} (hw : w.log = deliveredFacts unmarshal s₀) :
    w.range lo hi = rangeFacts unmarshal lo hi s₀ := by
  have hfeed : feed isLogSubject lo (s₀.take hi) =
      (feed isLogSubject 0 s₀).filter fun d => decide (lo < d.seq) && decide (d.seq ≤ hi) := by
    calc feed isLogSubject lo (s₀.take hi)
        = (feed isLogSubject 0 (s₀.take hi)).filter fun d => lo < d.seq :=
          feedFrom_after (Nat.zero_le _)
      _ = _ := by rw [feed_take, List.filter_filter]
  rw [World.range, hw, deliveredFacts, rangeFacts, hfeed]
  induction feed isLogSubject 0 s₀ with
  | nil => rfl
  | cons d ds ih =>
    by_cases hd : (decide (lo < d.seq) && decide (d.seq ≤ hi)) = true
    · cases he : unmarshal d.msg.payload with
      | none => simp only [List.map_cons, List.filter_cons, hd, he, decodeFact, ih, Option.map_none,
          List.filterMap_cons, Option.isSome_none, Bool.and_false, if_true, Bool.false_eq_true,
          if_false]
      | some e => simp only [List.map_cons, List.filter_cons, hd, he, decodeFact, ih,
          Option.map_some, List.filterMap_cons, Option.isSome_some, Bool.and_true, if_true]
    · simp only [List.map_cons, List.filter_cons, hd, ih, Bool.false_and, if_false,
        Bool.false_eq_true]

/-- If a fetch comes back without messages only when nothing up to `hi` is left, then whatever else
the broker answers and whatever is appended meanwhile: a call that succeeds returns exactly the
decodable facts of `(lo, hi]`, so that a state which folds the log up to `lo` is hydrated to one that
folds it up to `hi`.  The call makes at most one operation for each message of the range and two more,
and until it has returned it goes on with any answer. -/
theorem foldRange_exact (hlt : lo < hi) (hhi : hi ≤ s₀.length)
    (h : Reaches (step unmarshal) Patient (start lo hi s₀) s) :
    (∀ facts, s.point = .returned (.ok facts) →
      facts = rangeFacts unmarshal lo hi s₀ ∧
      ∀ st : Projector.State, st.Folds (rangeFacts unmarshal 0 lo s₀) →
        (facts.foldl Projector.State.applyFact st).Folds (rangeFacts unmarshal 0 hi s₀)) ∧
    s.operations ≤ (feed isLogSubject lo (s₀.take hi)).length + 2 ∧
    ((∀ result, s.point ≠ .returned result) →
      ∃ a s', step unmarshal s (.answer a) = some s') := by
  have hinv := Inv.reached hhi h
  refine ⟨?_, ?_, ?_⟩
  · intro facts hret
    have hfacts := hinv.returned facts hret
    refine ⟨hfacts, ?_⟩
    intro st hst
    rw [hfacts, rangeFacts_append (Nat.le_of_lt hlt)]
    exact hst.foldl _
  · have hslack : s.point.slack ≤ 2 := by
      cases s.point <;> simp [Point.slack]
    calc s.operations ≤ s.pos + s.point.slack := hinv.counted
      _ ≤ (feed isLogSubject lo (s₀.take hi)).length + 2 :=
          Nat.add_le_add (hinv.pos_le_range hhi) hslack
  · intro hrunning
    refine ⟨.fail "", ?_⟩
    cases hpoint : s.point with
    | returned result => exact absurd hpoint (hrunning result)
    | _ => simp [step, perform, hpoint]

/-- Under the same condition a call that succeeds answers what the machine of the worker reads in one
step. -/
theorem foldRange_answer (hhi : hi ≤ s₀.length)
    (h : Reaches (step unmarshal) Patient (start lo hi s₀) s) {facts : List Fact}
    (hret : s.point = .returned (.ok facts)) {w : World} {max : Option Nat}
    (hw : w.log = deliveredFacts unmarshal s₀) :
    (machine max).perform w (.foldRange lo hi) .go = some (.ok facts, w) := by
  have hfacts : facts = w.range lo hi :=
    ((Inv.reached hhi h).returned facts hret).trans (range_eq hw).symm
  rw [hfacts]
  rfl

end Calls

def State.result {Data : Type} (s : State Data) : Option (List Fact) :=
  match s.point with
  | .returned (.ok facts) => some facts
  | _ => none

theorem State.point_of_result {Data : Type} {s : State Data} {facts : List Fact}
    (h : s.result = some facts) : s.point = .returned (.ok facts) := by
  unfold result at h
  split at h
  · next hpoint =>
      cases h
      exact hpoint
  · cases h

instance {Data : Type} (s : State Data) (e : Step Data) : Decidable (Patient s e) :=
  match e with
  | .append _ | .answer .done | .answer (.fail _) => .isTrue trivial
  | .answer .timeout => inferInstanceAs (Decidable (Drained s))
  | .answer (.batch size _) => inferInstanceAs (Decidable (size = 0 → Drained s))

namespace Scenario

def joined : Msg String String Event :=
  ⟨"tenant.t.interaction.i.log", "1",
    ⟨schemaV1, "participant.joined", "e1", 1, 0, "t", "A", "chat", "p", "", "p", "", [], "", "", ""⟩⟩

def message : Msg String String Event :=
  ⟨"tenant.t.interaction.i.log", "2",
    ⟨schemaV1, "message", "e2", 2, 0, "t", "A", "chat", "x", "", "x", "", [], "", "", ""⟩⟩

def slow : List (Step Event) :=
  [.answer .done, .answer .timeout]

def readOut : List (Step Event) :=
  [.answer .done, .answer (.batch 1 []), .append message, .answer (.batch 5 [])]

end Scenario

open Scenario in
/-- A timeout is taken for the end of the range: the join, which is below the ack floor, is missing
from the facts and then from the hydrated view. -/
theorem foldRange_timeout : ∃ s : State Event,
    Reaches (step some) (fun _ _ => True) (start 0 1 [joined]) s ∧
      s.point = .returned (.ok []) ∧ rangeFacts some 0 1 [joined] ≠ [] ∧
      ((([] : List Fact).foldl Projector.State.applyFact Projector.State.new).view
        "t/i").isParticipantNow "A" = false ∧
      (ParticipationView.fold
        (eventsAt (rangeFacts some 0 1 [joined]) "t/i")).isParticipantNow "A" = true := by
  have hrun : (execute (step some) (fun _ _ => True) slow (start 0 1 [joined])).map State.result =
      some (some []) := by
    decide +kernel
  rcases exists_of_execute hrun with ⟨s, hreach, hresult⟩
  refine ⟨s, hreach, State.point_of_result hresult, ?_, ?_, ?_⟩
  all_goals decide +kernel

open Scenario in
theorem readOut_returns : ∃ (s : State Event) (facts : List Fact),
    Reaches (step some) Patient (start 0 2 [joined, message]) s ∧
      s.point = .returned (.ok facts) := by
  have hrun : (execute (step some) Patient readOut (start 0 2 [joined, message])).map
      (fun s => s.result.isSome) = some true := by
    decide +kernel
  rcases exists_of_execute hrun with ⟨s, hreach, hresult⟩
  rcases Option.isSome_iff_exists.1 hresult with ⟨facts, hsome⟩
  exact ⟨s, facts, hreach, State.point_of_result hsome⟩

open Scenario in
theorem foldRange_exact_readOut : ∃ (s : State Event) (facts : List Fact),
    Reaches (step some) Patient (start 0 2 [joined, message]) s ∧
      s.point = .returned (.ok facts) ∧ facts = rangeFacts some 0 2 [joined, message] ∧
      (facts.foldl Projector.State.applyFact Projector.State.new).Folds
        (rangeFacts some 0 2 [joined, message]) ∧
      s.operations ≤ (feed isLogSubject 0 ([joined, message].take 2)).length + 2 := by
  rcases readOut_returns with ⟨s, facts, hreach, hpoint⟩
  rcases foldRange_exact (by decide) (by decide) hreach with ⟨hexact, hcount, _⟩
  rcases hexact facts hpoint with ⟨hfacts, hfolds⟩
  exact ⟨s, facts, hreach, hpoint, hfacts, hfolds _ Projector.State.folds_new, hcount⟩

open Scenario in
theorem foldRange_answer_readOut : ∃ (s : State Event) (facts : List Fact) (w : World),
    Reaches (step some) Patient (start 0 2 [joined, message]) s ∧
      s.point = .returned (.ok facts) ∧ w.log = deliveredFacts some [joined, message] ∧
      (machine none).perform w (.foldRange 0 2) .go = some (.ok facts, w) := by
  rcases readOut_returns with ⟨s, facts, hreach, hpoint⟩
  exact ⟨s, facts, World.start _, hreach, hpoint, rfl,
    foldRange_answer (by decide) hreach hpoint rfl⟩

end FoldRange
end RelayPoint.Projector
