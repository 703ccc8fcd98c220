import RelayPoint.Sdk.Outline

/-!
# Ordering — what a delivery hands over, over whole runs

`TrueLog` is the log of an interaction: one fact for each sequence.  The environment offers and
replays facts of it, in any order and any number of times.  `Inv` ties the delivery to the log: the
facts applied are the first of the log, and the mailbox has taken over all of them, or a part of them
if it is done.  `busy` is `1` while a `recover` loop runs, and `owed` while a fact has been applied
and not yet pushed, which is when `onApplied` is called.
-/

namespace RelayPoint.Sdk
namespace Delivery

open Concurrency

structure TrueLog where
  fact : Nat → LogEvent
  sequence_fact : ∀ n, (fact n).sequence = n

namespace TrueLog

def upTo (log : TrueLog) (k : Nat) : List LogEvent :=
  (List.range k).map fun i => log.fact (i + 1)

variable (log : TrueLog)

@[simp] theorem length_upTo (k : Nat) : (log.upTo k).length = k := by
  simp [upTo]

theorem upTo_succ (k : Nat) : log.upTo (k + 1) = log.upTo k ++ [log.fact (k + 1)] := by
  simp [upTo, List.range_succ]

theorem upTo_isPrefixOf {j k : Nat} (h : j ≤ k) : log.upTo j <+: log.upTo k := by
  induction h with
  | refl => exact List.prefix_rfl
  | step _ ih =>
    rw [upTo_succ]
    exact ih.trans (List.prefix_append _ _)

theorem eq_upTo_of_isPrefix {k : Nat} {evs : List LogEvent} (h : evs <+: log.upTo k) :
    evs = log.upTo evs.length := by
  have hle : evs.length ≤ k := by simpa using h.length_le
  exact (List.prefix_of_prefix_length_le h (log.upTo_isPrefixOf hle) (by simp)).eq_of_length (by simp)

def Genuine (ev : LogEvent) : Prop :=
  0 < ev.sequence ∧ log.fact ev.sequence.toNat = ev
  deriving Decidable

end TrueLog

variable {ε : Type}

def Allowed (log : TrueLog) (_ : State ε) : Event ε → Prop
  | .offer _ ev | .item _ _ ev => log.Genuine ev
  | .prime _ | .close | .ended _ _ | .thrown _ _ _ | .waited _ _ | .consume _ | .resume _ => True

instance (log : TrueLog) (s : State ε) : (e : Event ε) → Decidable (Allowed log s e)
  | .offer _ ev | .item _ _ ev => inferInstanceAs (Decidable (log.Genuine ev))
  | .prime _ | .close | .ended _ _ | .thrown _ _ _ | .waited _ _ | .consume _ | .resume _ =>
    instDecidableTrue

structure Inv (log : TrueLog) (busy owed : Nat) (s : State ε) : Prop where
  stream : ∃ active p, s.out.Inv active (log.upTo p) ∧ p + owed ≤ s.tapped.length ∧
    (s.out.done = false → p + owed = s.tapped.length)
  applied_eq : s.applied = s.tapped.length
  tapped_eq : s.tapped = log.upTo s.tapped.length
  pending : ∀ k ev, s.pending.lookup k = some ev → k = ev.sequence ∧ log.Genuine ev
  loops : s.loops.length + busy = s.recovering.toNat

section Pieces

variable {log : TrueLog} {busy owed : Nat} {s : State ε}

theorem Inv.out (h : Inv log busy owed s) {out : Mailbox LogEvent (DeliveryFailedError ε)}
    (hkeep : ∀ {active xs}, s.out.Inv active xs → ∃ active', out.Inv active' xs)
    (hdone : out.done = false → s.out.done = false) : Inv log busy owed { s with out } := by
  rcases h.stream with ⟨active, p, hout, hle, heq⟩
  rcases hkeep hout with ⟨active', hout'⟩
  exact ⟨⟨active', p, hout', hle, fun hd => heq (hdone hd)⟩, h.applied_eq, h.tapped_eq, h.pending, h.loops⟩

theorem Inv.close (h : Inv log busy owed s) : Inv log busy owed s.close := by
  unfold State.close
  split
  · exact h
  · have hout : Inv log busy owed { s with out := s.out.close } :=
      h.out (fun hm => ⟨_, hm.close⟩) (by simp)
    exact ⟨hout.stream, hout.applied_eq, hout.tapped_eq, hout.pending, hout.loops⟩

theorem Inv.consume (h : Inv log busy owed s) (c : ConsumerCall) : Inv log busy owed (s.consume c) := by
  unfold State.consume
  cases hcall : s.out.call c with
  | none => exact h
  | some out => exact h.out (fun hm => hm.call hcall) (fun hd => by rw [← Mailbox.done_call hcall, ← hd]; rfl)

/-! ## Listeners -/

theorem Inv.announce {k : State ε → State ε} (h : Inv log busy owed s)
    (hk : ∀ {s}, Inv log busy owed s → Inv log busy owed (k s)) (st : DeliveryState) :
    Inv log busy owed (s.announce st k) := by
  unfold State.announce
  split
  · exact h
  · exact hk ⟨h.stream, h.applied_eq, h.tapped_eq, h.pending, h.loops⟩

theorem Inv.alone (h : Inv log 1 owed s) : s.loops.length = 0 ∧ s.recovering = true := by
  have hcount := h.loops
  cases hrec : s.recovering with
  | true => simpa [hrec] using hcount
  | false => simp [hrec] at hcount

theorem Inv.return (h : Inv log 1 owed s) : Inv log 0 owed { s with recovering := false } :=
  ⟨h.stream, h.applied_eq, h.tapped_eq, h.pending, by simp [h.alone.1]⟩

theorem Inv.suspend (h : Inv log 1 owed s) (r : Recovery) : Inv log 0 owed (s.suspend r) :=
  ⟨h.stream, h.applied_eq, h.tapped_eq, h.pending, by simp [State.suspend, h.alone]⟩

theorem Inv.begin {k : State ε → State ε} (h : Inv log 0 owed s) (hrec : s.recovering = false)
    (hk : ∀ {s}, Inv log 1 owed s → Inv log 1 owed (k s)) (initial : Bool) :
    Inv log 0 owed (s.begin initial k) := by
  have hnone : s.loops.length = 0 := by simpa [hrec] using h.loops
  have hstart : Inv log 1 owed { s with recovering := true } :=
    ⟨h.stream, h.applied_eq, h.tapped_eq, h.pending, by simp [hnone]⟩
  have hsaid := hstart.announce hk .replaying
  unfold State.begin State.enterLoop
  split
  · exact hsaid.return
  · exact hsaid.suspend _

theorem Inv.react (r : Reaction) :
    ∀ {busy : Nat} {s : State ε}, Inv log busy owed s → Inv log busy owed (react r s) := by
  induction r with
  | quiet => exact fun h => h
  | close k ih => exact fun h => ih h.close
  | prime r k ihr ihk =>
    intro busy s h
    refine ihk ?_
    split
    · next hidle =>
        have hrec : s.recovering = false := by
          cases hr : s.recovering with
          | true => simp [State.idle, hr] at hidle
          | false => rfl
        have hbusy : s.loops.length = 0 ∧ busy = 0 := by simpa [hrec] using h.loops
        rw [hbusy.2] at h ⊢
        exact h.begin hrec ihr true
    · exact h
  | consume c k ih => exact fun h => ih (h.consume c)

theorem Inv.setState (h : Inv log busy owed s) (l : Listener) (st : DeliveryState) :
    Inv log busy owed (setState l st s) :=
  h.announce (Inv.react _) st

theorem Inv.recover (h : Inv log 0 owed s) (hrec : s.recovering = false) (l : Listener) (initial : Bool) :
    Inv log 0 owed (recover l initial s) :=
  h.begin hrec (Inv.react _) initial

/-! ## Applying facts -/

variable {next : LogEvent}

theorem Inv.next_eq (h : Inv log busy 0 s) (hnext : s.pending.lookup (s.applied + 1) = some next) :
    next = log.fact (s.tapped.length + 1) ∧ next.sequence = s.tapped.length + 1 := by
  rcases h.pending _ _ hnext with ⟨hkey, -, hfact⟩
  have hseq : next.sequence = s.tapped.length + 1 := by rw [← hkey, h.applied_eq]
  refine ⟨?_, hseq⟩
  rw [← hfact, hseq]
  rfl

theorem Inv.apply (h : Inv log busy 0 s) (hnext : s.pending.lookup (s.applied + 1) = some next) :
    Inv log busy 1 (s.apply next) := by
  rcases h.next_eq hnext with ⟨hfact, hseq⟩
  rcases h.stream with ⟨active, p, hout, hle, heq⟩
  refine ⟨⟨active, p, hout, by simpa [State.apply] using hle, fun hd => by simpa [State.apply] using heq hd⟩,
    ?_, ?_, ?_, h.loops⟩
  · simp [State.apply, hseq]
  · rw [State.apply, List.length_append, List.length_singleton, log.upTo_succ, ← h.tapped_eq, ← hfact]
  · intro k ev hk
    simp only [State.apply] at hk
    by_cases hkey : k = next.sequence
    · rw [hkey, Finmap.lookup_erase] at hk
      cases hk
    · exact h.pending k ev (by rwa [Finmap.lookup_erase_ne hkey] at hk)

theorem Inv.push (h : Inv log busy 1 s) {k : Nat} (hnext : next = log.fact (k + 1))
    (hlen : s.tapped.length = k + 1) : Inv log busy 0 { s with out := s.out.push next } := by
  rcases h.stream with ⟨active, p, hout, hle, heq⟩
  have hpush := hout.push next
  cases hdone : s.out.done with
  | true =>
    -- a mailbox that is done takes nothing over any more
    rw [hdone] at hpush
    exact ⟨⟨active, p, hpush, by simp only; omega, by simp [hdone]⟩, h.applied_eq, h.tapped_eq, h.pending, h.loops⟩
  | false =>
    have hp : p = k := by have := heq hdone; omega
    rw [hdone, hp, hnext, ← log.upTo_succ, ← hnext] at hpush
    exact ⟨⟨active, k + 1, hpush, by simp [hlen], by simp [hlen]⟩, h.applied_eq, h.tapped_eq, h.pending, h.loops⟩

theorem Inv.drain (l : Listener) (n : Nat) : ∀ {s : State ε}, Inv log busy 0 s → Inv log busy 0 (drain l n s) := by
  induction n with
  | zero => exact fun h => h
  | succ n ih =>
    intro s h
    unfold Delivery.drain
    split
    · exact h
    · next next hnext =>
        refine ih ?_
        have hkeep := keeps_react (l.onApplied next) (s.apply next)
        have hlen := congrArg List.length hkeep.tapped
        rw [State.apply, List.length_append] at hlen
        exact ((h.apply hnext).react _).push (h.next_eq hnext).1 hlen

end Pieces

/-! ## The code between two awaits

`Rest log busy s` is what holds of the state wherever no fact is being applied. -/

structure Rest (log : TrueLog) (busy : Nat) (s : State ε) : Prop where
  inv : Inv log busy 0 s
  drained : s.Drained

section Code

variable {log : TrueLog} {busy : Nat} {s : State ε} (l : Listener)
variable {ev : LogEvent}

theorem Inv.put (h : Inv log busy 0 s) (hev : log.Genuine ev) : Inv log busy 0 (s.put ev) := by
  refine ⟨h.stream, h.applied_eq, h.tapped_eq, ?_, h.loops⟩
  intro k ev' hk
  simp only [State.put] at hk
  by_cases hkey : k = ev.sequence
  · rw [hkey, Finmap.lookup_insert] at hk
    cases hk
    exact ⟨hkey, hev⟩
  · exact h.pending k ev' (by rwa [Finmap.lookup_insert_of_ne _ hkey] at hk)

theorem Inv.drainContiguous (h : Inv log busy 0 s) : Rest log busy (drainContiguous l s) :=
  ⟨h.drain l _, drained_drain l _ (fun k ev hk => (h.pending k ev hk).1) le_rfl⟩

theorem Rest.setState (h : Rest log busy s) (st : DeliveryState) : Rest log busy (setState l st s) :=
  ⟨h.inv.setState l st, h.drained.of_keeps (keeps_setState l st s)⟩

theorem Rest.suspend (h : Rest log 1 s) (r : Recovery) : Rest log 0 (s.suspend r) :=
  ⟨h.inv.suspend r, h.drained⟩

theorem Rest.return (h : Rest log 1 s) : Rest log 0 { s with recovering := false } :=
  ⟨h.inv.return, h.drained⟩

theorem Rest.recover (h : Rest log 0 s) (hrec : s.recovering = false) (initial : Bool) :
    Rest log 0 (recover l initial s) :=
  ⟨h.inv.recover hrec l initial, h.drained.of_keeps (keeps_recover l initial s)⟩

theorem Rest.offer (h : Rest log 0 s) (hev : log.Genuine ev) : Rest log 0 (offer l ev s) := by
  unfold Delivery.offer
  split
  · exact h
  · split
    · exact h
    · have hput := (h.inv.put hev).drainContiguous l
      dsimp only
      split
      · next hgap => exact hput.recover l hgap.2 false
      · exact hput

theorem Rest.prime (h : Rest log 0 s) : Rest log 0 (prime l s) := by
  unfold Delivery.prime
  split
  · next hidle =>
      have hrec : s.recovering = false := by
        cases hr : s.recovering with
        | true => simp [State.idle, hr] at hidle
        | false => rfl
      exact h.recover l hrec true
  · exact h

theorem Rest.afterLoop (h : Rest log 1 s) : Rest log 0 (afterLoop l s) := by
  have hback := h.return
  unfold Delivery.afterLoop
  -- nothing is left to apply, so no listener runs before a new loop may start
  simp only [drainContiguous_of_drained l hback.drained]
  split
  · exact hback
  · split
    · exact hback.recover l rfl false
    · exact hback.setState l .live

theorem Rest.nextPass (h : Rest log 1 s) (attempt : Nat) (needPass : Bool) :
    Rest log 0 (nextPass l attempt needPass s) := by
  unfold Delivery.nextPass
  split
  · exact h.suspend _
  · exact h.afterLoop l

theorem Rest.fail (h : Rest log 1 s) (err : DeliveryFailedError ε) : Rest log 0 (fail l err s) := by
  have hsaid := h.return.setState l .failed
  refine ⟨hsaid.inv.out (fun hm => ⟨_, hm.error err⟩) (by simp), hsaid.drained⟩

variable (backoff : List Nat)

theorem Rest.passEnd (h : Rest log 1 s) (attempt : Nat) : Rest log 0 (passEnd backoff l attempt s) := by
  unfold Delivery.passEnd
  split
  · exact h.afterLoop l
  · split
    · exact h.fail l _
    · exact (h.setState l .degraded).suspend _

theorem Rest.passThrow (h : Rest log 1 s) (attempt : Nat) (needPass : Bool) (fromSequence : Int) (err : ε) :
    Rest log 0 (passThrow backoff l attempt needPass fromSequence err s) := by
  have hsaid := h.setState l .degraded
  unfold Delivery.passThrow
  split
  · exact hsaid.fail l _
  · exact hsaid.suspend _

theorem Rest.passItem (h : Rest log 1 s) (hev : log.Genuine ev) (attempt : Nat) (needPass : Bool)
    (fromSequence : Int) : Rest log 0 (passItem l attempt needPass fromSequence ev s) := by
  unfold Delivery.passItem
  split
  · exact h.suspend _
  · split
    · exact h.suspend _
    · exact ((h.inv.put hev).drainContiguous l).suspend _

theorem Rest.wake (h : Rest log 0 s) {i : Nat} {p : Recovery × State ε} (hwake : s.wake i = some p) :
    Rest log 1 p.2 := by
  rcases Option.map_eq_some_iff.1 hwake with ⟨r, hr, hp⟩
  cases hp
  rcases List.getElem?_eq_some_iff.1 hr with ⟨hi, -⟩
  have hone : (s.loops.eraseIdx i).length + 1 = s.loops.length := List.length_eraseIdx_add_one hi
  have hloops : (s.loops.eraseIdx i).length + 1 = s.recovering.toNat := by simpa [hone] using h.inv.loops
  exact ⟨⟨h.inv.stream, h.inv.applied_eq, h.inv.tapped_eq, h.inv.pending, hloops⟩, h.drained⟩

variable {l backoff} {p : Recovery × State ε} {s' : State ε}

theorem Rest.onItem (h : Rest log 1 p.2) (hev : log.Genuine ev) (hgo : onItem l ev p = some s') :
    Rest log 0 s' := by
  rcases p with ⟨⟨attempt, needPass, awaits⟩, t⟩
  cases awaits with
  | item fromSequence =>
    cases hgo
    exact h.passItem l hev _ _ _
  | leaving | backoff => cases hgo

theorem Rest.onEnd (h : Rest log 1 p.2) (hgo : onEnd backoff l p = some s') : Rest log 0 s' := by
  rcases p with ⟨⟨attempt, needPass, awaits⟩, t⟩
  cases awaits with
  | item fromSequence | leaving fromSequence =>
    cases hgo
    exact h.passEnd l backoff _
  | backoff => cases hgo

theorem Rest.onThrow {err : ε} (h : Rest log 1 p.2) (hgo : onThrow backoff l err p = some s') :
    Rest log 0 s' := by
  rcases p with ⟨⟨attempt, needPass, awaits⟩, t⟩
  cases awaits with
  | item fromSequence | leaving fromSequence =>
    cases hgo
    exact h.passThrow l backoff _ _ _ _
  | backoff => cases hgo

theorem Rest.onWaited (h : Rest log 1 p.2) (hgo : onWaited l p = some s') : Rest log 0 s' := by
  rcases p with ⟨⟨attempt, needPass, awaits⟩, t⟩
  cases awaits with
  | item | leaving => cases hgo
  | backoff =>
    cases hgo
    exact h.nextPass l _ _

end Code

/-! ## Whole runs -/

theorem Rest.step {log : TrueLog} {backoff : List Nat} {s s' : State ε} {e : Event ε} (h : Rest log 0 s)
    (hallowed : Allowed log s e) (hstep : step backoff s e = some s') : Rest log 0 s' := by
  cases e with
  | offer l ev =>
    cases hstep
    exact h.offer l hallowed
  | prime l =>
    cases hstep
    exact h.prime l
  | close =>
    cases hstep
    exact ⟨h.inv.close, h.drained.of_keeps (keeps_close s)⟩
  | item l i ev =>
    rcases Option.bind_eq_some_iff.1 hstep with ⟨p, hwake, hgo⟩
    exact (h.wake hwake).onItem hallowed hgo
  | ended l i =>
    rcases Option.bind_eq_some_iff.1 hstep with ⟨p, hwake, hgo⟩
    exact (h.wake hwake).onEnd hgo
  | thrown l i err =>
    rcases Option.bind_eq_some_iff.1 hstep with ⟨p, hwake, hgo⟩
    exact (h.wake hwake).onThrow hgo
  | waited l i =>
    rcases Option.bind_eq_some_iff.1 hstep with ⟨p, hwake, hgo⟩
    exact (h.wake hwake).onWaited hgo
  | consume c =>
    rcases Option.map_eq_some_iff.1 hstep with ⟨out, hcall, hs'⟩
    cases hs'
    exact ⟨h.inv.out (fun hm => hm.call hcall) (Mailbox.done_call hcall ▸ id), h.drained⟩
  | resume g =>
    rcases Option.map_eq_some_iff.1 hstep with ⟨out, hresume, hs'⟩
    cases hs'
    exact ⟨h.inv.out (fun hm => hm.resume hresume) (Mailbox.done_resume hresume ▸ id), h.drained⟩

theorem rest_start (log : TrueLog) : Rest log 0 ({} : State ε) :=
  ⟨⟨⟨none, 0, Mailbox.inv_empty, le_rfl, fun _ => rfl⟩, rfl, rfl, by simp, rfl⟩, Finmap.lookup_empty _⟩

/-- In every run the items handed to the consumer are the facts `1, …, k` in order, the tap sees the
same facts in the same order, no item follows the terminal error, and at most one `recover` loop
runs. -/
theorem ordered_delivery (log : TrueLog) (backoff : List Nat) {s : State ε}
    (h : Trace.Reaches (step backoff) (Allowed log) {} s) :
    (∃ k, items s.out.answers = log.upTo k) ∧
      s.tapped = log.upTo s.tapped.length ∧ items s.out.answers <+: s.tapped ∧
      s.out.answers.Pairwise Answer.Precedes ∧ s.loops.length ≤ 1 := by
  have hrest : Rest log 0 s := h.invariant (rest_start log) Rest.step
  rcases hrest.inv.stream with ⟨active, p, hout, hle, -⟩
  have hitems : items s.out.answers <+: log.upTo p := hout.items_prefix_of
  refine ⟨⟨_, log.eq_upTo_of_isPrefix hitems⟩, hrest.inv.tapped_eq, ?_, hout.ordered, ?_⟩
  · rw [hrest.inv.tapped_eq]
    exact hitems.trans (log.upTo_isPrefixOf hle)
  · have hcount : s.loops.length = s.recovering.toNat := hrest.inv.loops
    rw [hcount]
    exact Bool.toNat_le _

namespace Scenario

def bareLog : TrueLog where
  fact n := ⟨"", "", "", "", n, "", "", "", none, none, none, .raw []⟩
  sequence_fact _ := rfl

/-- A live fact shows a gap while the consumer waits; the replay throws, and the missing fact arrives
live; another iterator reads on; the listener closes the delivery at the third fact. -/
def gapFilled : List (Event Unit) :=
  [ .consume (.next 0), .offer .quiet (bareLog.fact 2), .thrown .quiet 0 (), .offer .quiet (bareLog.fact 1),
    .resume 0, .waited .quiet 0, .consume (.stop 0), .consume (.next 1),
    .offer ⟨fun _ => .quiet, fun _ => .close .quiet⟩ (bareLog.fact 3), .consume (.next 1) ]

end Scenario

theorem ordered_delivery_gapFilled :
    ∃ s : State Unit, Trace.Reaches (step [100, 250]) (Allowed Scenario.bareLog) {} s ∧
      (items s.out.answers).map (·.sequence) = [1, 2] ∧ s.tapped.map (·.sequence) = [1, 2, 3] ∧
      items s.out.answers <+: s.tapped := by
  have hrun : (Trace.execute (step [100, 250]) (Allowed Scenario.bareLog) Scenario.gapFilled {}).map
      (fun s => ((items s.out.answers).map (·.sequence), s.tapped.map (·.sequence))) =
        some ([1, 2], [1, 2, 3]) := by
    decide +kernel
  rcases Trace.exists_of_execute hrun with ⟨s, hs, hview⟩
  rcases Prod.mk.inj hview with ⟨hitems, htapped⟩
  exact ⟨s, hs, hitems, htapped, (ordered_delivery Scenario.bareLog [100, 250] hs).2.2.1⟩

end Delivery
end RelayPoint.Sdk
