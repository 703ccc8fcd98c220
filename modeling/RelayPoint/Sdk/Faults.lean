import RelayPoint.Sdk.Ordering

/-!
# Faults — listeners that throw

The listeners are called in the middle of the code: `onApplied` between the application of a fact and
its push, `onState` inside `setState`.  Nothing catches what they throw there.  What follows the call
is skipped, up to the `catch` of a pass or the end of the turn: in `offer` the exception goes to the
subscription, and in `recover`, whose promise nobody looks at, it ends the loop with `recovering` as
it stands.
-/

namespace RelayPoint.Sdk
namespace Delivery

open Concurrency

variable {ε : Type}

structure Faults (ε : Type) where
  onState : DeliveryState → Option ε := fun _ => none
  onApplied : LogEvent → Option ε := fun _ => none

structure Outcome (ε : Type) where
  state : State ε
  thrown : Option ε

def Outcome.andThen (o : Outcome ε) (k : State ε → State ε) : State ε :=
  match o.thrown with
  | none => k o.state
  | some _ => o.state

/-- A loop whose pass a listener has broken off: it waits for the iterator to close, and then
throws. -/
structure Unwinding (ε : Type) where
  attempt : Nat
  needPass : Bool
  fromSequence : Int
  err : ε

namespace Faulty

section Code

variable (backoff : List Nat) (f : Faults ε)

def setState (st : DeliveryState) (s : State ε) : Outcome ε :=
  if s.state = st then ⟨s, none⟩ else ⟨{ s with state := st }, f.onState st⟩

def drain : Nat → State ε → Outcome ε
  | 0, s => ⟨s, none⟩
  | n + 1, s =>
    match s.pending.lookup (s.applied + 1) with
    | none => ⟨s, none⟩
    | some next =>
      let s := s.apply next
      match f.onApplied next with
      -- the fact counts as applied and has not been pushed
      | some err => ⟨s, some err⟩
      | none => drain n { s with out := s.out.push next }

def drainContiguous (s : State ε) : Outcome ε :=
  drain f s.size s

def recover (initial : Bool) (s : State ε) : State ε :=
  (setState f .replaying { s with recovering := true }).andThen fun s => s.enterLoop initial

def offer (ev : LogEvent) (s : State ε) : State ε :=
  if s.closed || s.state == .failed then s
  else if ev.sequence ≤ s.applied then s
  else
    (drainContiguous f (s.put ev)).andThen fun s =>
      if 0 < s.size ∧ s.recovering = false then recover f false s else s

def prime (s : State ε) : State ε :=
  if s.idle then recover f true s else s

def afterLoop (s : State ε) : State ε :=
  let s := { s with recovering := false }
  if s.closed || s.state == .failed then s
  else
    (drainContiguous f s).andThen fun s =>
      if 0 < s.size then recover f false s else (setState f .live s).state

def nextPass (attempt : Nat) (needPass : Bool) (s : State ε) : State ε :=
  if (needPass || 0 < s.size) && !s.closed then s.suspend ⟨attempt, needPass, .item (s.applied + 1)⟩
  else afterLoop f s

def fail (err : DeliveryFailedError ε) (s : State ε) : State ε :=
  (setState f .failed { s with recovering := false }).andThen fun s => { s with out := s.out.error err }

def passEnd (attempt : Nat) (s : State ε) : State ε :=
  if s.size = 0 then afterLoop f s
  else if backoff.length ≤ attempt + 1 then fail f ⟨s.applied + 1, none⟩ s
  else (setState f .degraded s).andThen fun s => s.suspend ⟨attempt, false, .backoff⟩

def passThrow (attempt : Nat) (needPass : Bool) (fromSequence : Int) (err : ε) (s : State ε) : State ε :=
  (setState f .degraded s).andThen fun s =>
    if backoff.length ≤ attempt + 1 then fail f ⟨fromSequence, some err⟩ s
    else s.suspend ⟨attempt, needPass, .backoff⟩

def passItem (attempt : Nat) (needPass : Bool) (fromSequence : Int) (ev : LogEvent) (s : State ε) :
    Outcome ε :=
  if s.closed then ⟨s.suspend ⟨attempt, needPass, .leaving fromSequence⟩, none⟩
  else
    let o := if ev.sequence ≤ s.applied then ⟨s, none⟩ else drainContiguous f (s.put ev)
    ⟨o.andThen fun s => s.suspend ⟨attempt, needPass, .item fromSequence⟩, o.thrown⟩

end Code

/-! ## Turns of the event loop -/

/-- The turns of `Delivery.Event`, with what the listeners throw in them, and the iterator of a loop
that a listener has broken off being closed. -/
inductive Turn (ε : Type) where
  | offer (f : Faults ε) (ev : LogEvent)
  | prime (f : Faults ε)
  | close
  | item (f : Faults ε) (i : Nat) (ev : LogEvent)
  | ended (f : Faults ε) (i : Nat)
  | thrown (f : Faults ε) (i : Nat) (err : ε)
  | unwound (f : Faults ε) (i : Nat)
  | waited (f : Faults ε) (i : Nat)
  | consume (c : ConsumerCall)
  | resume (g : Nat)

structure Run (ε : Type) where
  delivery : State ε := {}
  unwinding : List (Unwinding ε) := []

def onItem (f : Faults ε) (ev : LogEvent) (unwinding : List (Unwinding ε)) :
    Recovery × State ε → Option (Run ε)
  | (⟨attempt, needPass, .item fromSequence⟩, s) =>
    let o := passItem f attempt needPass fromSequence ev s
    match o.thrown with
    | none => some ⟨o.state, unwinding⟩
    | some err => some ⟨o.state, unwinding ++ [⟨attempt, needPass, fromSequence, err⟩]⟩
  | (⟨_, _, .leaving _⟩, _) | (⟨_, _, .backoff⟩, _) => none

def onEnd (backoff : List Nat) (f : Faults ε) : Recovery × State ε → Option (State ε)
  | (⟨attempt, _, .item _⟩, s) | (⟨attempt, _, .leaving _⟩, s) => some (passEnd backoff f attempt s)
  | (⟨_, _, .backoff⟩, _) => none

def onThrow (backoff : List Nat) (f : Faults ε) (err : ε) : Recovery × State ε → Option (State ε)
  | (⟨attempt, needPass, .item fromSequence⟩, s) | (⟨attempt, needPass, .leaving fromSequence⟩, s) =>
    some (passThrow backoff f attempt needPass fromSequence err s)
  | (⟨_, _, .backoff⟩, _) => none

def onWaited (f : Faults ε) : Recovery × State ε → Option (State ε)
  | (⟨attempt, needPass, .backoff⟩, s) => some (nextPass f (attempt + 1) needPass s)
  | (⟨_, _, .item _⟩, _) | (⟨_, _, .leaving _⟩, _) => none

namespace Run

def goOn (d : Run ε) (s : State ε) : Run ε :=
  { d with delivery := s }

def step (backoff : List Nat) (d : Run ε) : Turn ε → Option (Run ε)
  | .offer f ev => some (d.goOn (offer f ev d.delivery))
  | .prime f => some (d.goOn (prime f d.delivery))
  | .close => some (d.goOn d.delivery.close)
  | .item f i ev => (d.delivery.wake i).bind (onItem f ev d.unwinding)
  | .ended f i => ((d.delivery.wake i).bind (onEnd backoff f)).map d.goOn
  | .thrown f i err => ((d.delivery.wake i).bind (onThrow backoff f err)).map d.goOn
  | .waited f i => ((d.delivery.wake i).bind (onWaited f)).map d.goOn
  | .unwound f i =>
    d.unwinding[i]?.map fun u =>
      ⟨passThrow backoff f u.attempt u.needPass u.fromSequence u.err d.delivery, d.unwinding.eraseIdx i⟩
  | .consume c => (d.delivery.out.call c).map fun out => d.goOn { d.delivery with out }
  | .resume g => (d.delivery.out.resume g).map fun out => d.goOn { d.delivery with out }

/-- A turn for which nobody waits, such as an item of a pass that has been given up, changes
nothing. -/
def turn (backoff : List Nat) (d : Run ε) (t : Turn ε) : Run ε :=
  (d.step backoff t).getD d

def schedule (backoff : List Nat) (ts : List (Turn ε)) : Run ε :=
  ts.foldl (Run.turn backoff) {}

end Run

def Turn.sound : Turn ε → Turn ε
  | .offer _ ev => .offer {} ev
  | .prime _ => .prime {}
  | .close => .close
  | .item _ i ev => .item {} i ev
  | .ended _ i => .ended {} i
  | .thrown _ i err => .thrown {} i err
  | .unwound _ i => .unwound {} i
  | .waited _ i => .waited {} i
  | .consume c => .consume c
  | .resume g => .resume g

end Faulty
end Delivery

/-! ## A mailbox that is not told of the failure

Where `onState` throws at `failed`, the mailbox is not told.  The consumer misses the error, but no item:
nothing is pushed any more, and what is queued is handed over either way. -/

theorem Point.eq_of_held {T E : Type} {p : Point T E} {x : T} {rest : List T} (h : p.held = x :: rest) :
    p = .settled (.value x) := by
  unfold Point.held at h
  split at h
  · next y =>
      cases h
      rfl
  all_goals cases h

namespace Mailbox

variable {T E : Type}

/-- `m'` has been told of a failure, or closed, and `m` perhaps not; nothing is pushed to either. -/
structure Muted (m m' : Mailbox T E) : Prop where
  queue : m'.queue = m.queue
  items : items m'.answers = items m.answers
  held : ∀ g, (m'.iterators g).held = (m.iterators g).held
  waiting : ∀ w ∈ m.waiters, (m.iterators w).held = []
  done : m'.done = true
  same : m.queue ≠ [] → m'.iterating = m.iterating ∧ m'.iterators = m.iterators ∧ m.waiters = []

theorem IsQueue.muted_error {m : Mailbox T E} (h : m.IsQueue) (e : E) : Muted m (m.error e) := by
  rcases h with ⟨active, xs, hm⟩
  have hwaiting : ∀ w ∈ m.waiters, (m.iterators w).held = [] := by
    intro w hw
    simp [(hm.waiting w hw).2.1, Point.held]
  have hnobody : m.queue ≠ [] → m.waiters = [] := by
    intro hqueue
    refine List.eq_nil_iff_forall_not_mem.2 fun w hw => ?_
    exact hqueue (hm.waiting w hw).2.2.1
  cases hdone : m.done with
  | true =>
    have hsame : m.error e = m := by simp [Mailbox.error, hdone]
    rw [hsame]
    exact ⟨rfl, rfl, fun _ => rfl, hwaiting, hdone, fun hqueue => ⟨rfl, rfl, hnobody hqueue⟩⟩
  | false =>
    cases hw : m.waiters with
    | nil =>
      have hsaid : m.error e = { m with failure := some e, done := true } := by
        simp [Mailbox.error, hdone, hw]
      rw [hsaid]
      exact ⟨rfl, rfl, fun _ => rfl, hwaiting, rfl, fun hqueue => ⟨rfl, rfl, hnobody hqueue⟩⟩
    | cons w ws =>
      have hsaid : m.error e =
          { m with failure := some e, done := true, waiters := ws }.setPoint w (.settled (.error e)) := by
        simp [Mailbox.error, hdone, hw]
      have hempty : m.queue = [] := (hm.waiting w (by simp [hw])).2.2.1
      rw [hsaid]
      refine ⟨rfl, rfl, fun g => ?_, hwaiting, rfl, fun hqueue => absurd hempty hqueue⟩
      by_cases hg : g = w
      · have hnone := hwaiting w (by simp [hw])
        rw [hg, hnone]
        simp [Point.held]
      · simp [hg]

structure Still (m m₁ : Mailbox T E) : Prop where
  queue : m₁.queue = []
  items : items m₁.answers = items m.answers
  held : ∀ g, (m₁.iterators g).held = (m.iterators g).held
  waiting : ∀ w ∈ m₁.waiters, w ∈ m.waiters ∨ (m₁.iterators w).held = []
  done : m₁.done = m.done

section Still

variable {m m' m₁ m₁' : Mailbox T E} {g : Nat}

theorem Still.refl (hqueue : m.queue = []) : Still m m :=
  ⟨hqueue, rfl, fun _ => rfl, fun _ hw => .inl hw, rfl⟩

theorem Muted.of_still (h : Muted m m') (hs : Still m m₁) (hs' : Still m' m₁') : Muted m₁ m₁' where
  queue := hs'.queue.trans hs.queue.symm
  items := hs'.items.trans (h.items.trans hs.items.symm)
  held g := (hs'.held g).trans ((h.held g).trans (hs.held g).symm)
  waiting := by
    intro w hw
    rcases hs.waiting w hw with hold | hnew
    · exact (hs.held w).trans (h.waiting w hold)
    · exact hnew
  done := hs'.done.trans h.done
  same hqueue := absurd hs.queue hqueue

theorem held_setPoint_of_empty {p : Point T E} (hg : (m.iterators g).held = []) (hp : p.held = []) (g' : Nat) :
    ((m.setPoint g p).iterators g').held = (m.iterators g').held := by
  by_cases hgg : g' = g
  · simp [hgg, hg, hp]
  · simp [hgg]

theorem Still.answer (h : Still m m₁) {a : Answer T E} (ha : a.item? = none) : Still m (m₁.answer a) where
  queue := h.queue
  items := by
    have hnone : Sdk.items [a] = [] := by simp [Sdk.items, ha]
    simp [Mailbox.answer, hnone, h.items]
  held := h.held
  waiting := h.waiting
  done := h.done

theorem Still.setPoint (h : Still m m₁) {p : Point T E} (hg : (m.iterators g).held = []) (hp : p.held = []) :
    Still m (m₁.setPoint g p) where
  queue := h.queue
  items := h.items
  held g' := (held_setPoint_of_empty ((h.held g).trans hg) hp g').trans (h.held g')
  waiting := by
    intro w hw
    rcases h.waiting w hw with hold | hnew
    · exact .inl hold
    · exact .inr ((held_setPoint_of_empty ((h.held g).trans hg) hp w).trans hnew)
  done := h.done

theorem Still.iterating (h : Still m m₁) (b : Bool) : Still m { m₁ with iterating := b } :=
  ⟨h.queue, h.items, h.held, h.waiting, h.done⟩

theorem Still.leave (h : Still m m₁) (hg : (m.iterators g).held = []) : Still m (m₁.leave g) :=
  (h.iterating false).setPoint hg rfl

theorem Still.pull (h : Still m m₁) (hg : (m.iterators g).held = []) : Still m (m₁.pull g) := by
  unfold Mailbox.pull
  simp only [h.queue]
  split
  · split
    all_goals exact (h.leave hg).answer rfl
  · have hpoint := h.setPoint (p := .awaiting) hg rfl
    refine ⟨rfl, hpoint.items, hpoint.held, ?_, hpoint.done⟩
    intro w hw
    rcases List.mem_append.1 hw with hold | hnew
    · exact hpoint.waiting w hold
    · rw [List.mem_singleton.1 hnew]
      exact .inr (by simp [Point.held])

theorem still_call (hqueue : m.queue = []) (c : ConsumerCall) : Still m ((m.call c).getD m) := by
  have hrest := Still.refl hqueue
  cases c with
  | next g =>
    simp only [Mailbox.call, Mailbox.next]
    split
    · next hpoint =>
        have hg : (m.iterators g).held = [] := by simp [hpoint, Point.held]
        split
        · exact Still.answer (hrest.setPoint hg rfl) rfl
        · exact (hrest.iterating true).pull hg
    · next hpoint => exact hrest.pull (by simp [hpoint, Point.held])
    · exact Still.answer hrest rfl
    all_goals exact hrest
  | stop g =>
    simp only [Mailbox.call, Mailbox.stop]
    split
    · next hpoint => exact hrest.setPoint (by simp [hpoint, Point.held]) rfl
    · next hpoint => exact hrest.leave (by simp [hpoint, Point.held])
    all_goals exact hrest

theorem still_resume (hqueue : m.queue = []) (hg : (m.iterators g).held = []) :
    Still m ((m.resume g).getD m) := by
  have hrest := Still.refl hqueue
  unfold Mailbox.resume
  split
  · next x hpoint => simp [hpoint, Point.held] at hg
  · exact Still.answer (hrest.leave hg) rfl
  · exact Still.answer (hrest.leave hg) rfl
  all_goals exact hrest

end Still

theorem still_foldl (ws : List Nat) :
    ∀ m : Mailbox T E, (∀ w ∈ ws, (m.iterators w).held = []) →
      let m₁ := ws.foldl (fun m w => m.setPoint w (.settled .done)) m
      m₁.queue = m.queue ∧ items m₁.answers = items m.answers ∧
        (∀ g, (m₁.iterators g).held = (m.iterators g).held) ∧ m₁.waiters = m.waiters := by
  induction ws with
  | nil => exact fun m _ => ⟨rfl, rfl, fun _ => rfl, rfl⟩
  | cons w ws ih =>
    intro m hws
    have hmoved := held_setPoint_of_empty (p := .settled .done) (hws w (by simp)) rfl
    have hrest : ∀ v ∈ ws, ((m.setPoint w (.settled .done)).iterators v).held = [] :=
      fun v hv => (hmoved v).trans (hws v (by simp [hv]))
    rcases ih (m.setPoint w (.settled .done)) hrest with ⟨hqueue, hitems, hheld, hwaiters⟩
    exact ⟨hqueue, hitems, fun g => (hheld g).trans (hmoved g), hwaiters⟩

section Muted

variable {m m' : Mailbox T E} {g : Nat}

theorem Muted.both (h : Muted m m') {m₁ m₁' : Mailbox T E} (hqueue : m₁'.queue = m₁.queue)
    (hitems : Sdk.items m₁'.answers = Sdk.items m₁.answers) (hiterators : m₁'.iterators = m₁.iterators)
    (hiterating : m₁'.iterating = m₁.iterating) (hwaiters : m₁.waiters = []) (hdone : m₁'.done = m'.done) :
    Muted m₁ m₁' :=
  ⟨hqueue, hitems, fun g => by rw [hiterators], by simp [hwaiters], hdone.trans h.done,
    fun _ => ⟨hiterating, hiterators, hwaiters⟩⟩

theorem Muted.call (h : Muted m m') (c : ConsumerCall) : Muted ((m.call c).getD m) ((m'.call c).getD m') := by
  by_cases hqueue : m.queue = []
  · exact h.of_still (still_call hqueue c) (still_call (h.queue.trans hqueue) c)
  · rcases h.same hqueue with ⟨hiterating, hiterators, hwaiters⟩
    rcases List.exists_cons_of_ne_nil hqueue with ⟨x, rest, hx⟩
    have hx' : m'.queue = x :: rest := h.queue.trans hx
    cases c with
    | next g =>
      simp only [Mailbox.call, Mailbox.next, hiterators, hiterating]
      split
      · split
        · exact h.both h.queue (by simp [Mailbox.answer, Mailbox.setPoint, h.items])
            (by simp [Mailbox.answer, Mailbox.setPoint, hiterators]) hiterating hwaiters rfl
        · simp only [Mailbox.pull, hx, hx']
          exact h.both rfl (by simp [Mailbox.answer, Mailbox.setPoint, h.items])
            (by simp [Mailbox.answer, Mailbox.setPoint]) rfl hwaiters rfl
      · simp only [Mailbox.pull, hx, hx']
        exact h.both rfl (by simp [Mailbox.answer, Mailbox.setPoint, h.items])
          (by simp [Mailbox.answer, Mailbox.setPoint, hiterators]) hiterating hwaiters rfl
      · exact h.both h.queue (by simp [Mailbox.answer, h.items]) hiterators hiterating hwaiters rfl
      all_goals exact h
    | stop g =>
      simp only [Mailbox.call, Mailbox.stop, hiterators]
      split
      · exact h.both h.queue h.items (by simp [Mailbox.setPoint, hiterators]) hiterating hwaiters rfl
      · exact h.both h.queue h.items (by simp [Mailbox.leave, Mailbox.setPoint, hiterators]) rfl hwaiters rfl
      all_goals exact h

theorem Muted.resume (h : Muted m m') (g : Nat) : Muted ((m.resume g).getD m) ((m'.resume g).getD m') := by
  by_cases hqueue : m.queue = []
  · cases hheld : (m.iterators g).held with
    | nil =>
      exact h.of_still (still_resume hqueue hheld)
        (still_resume (h.queue.trans hqueue) ((h.held g).trans hheld))
    | cons x rest =>
      -- the promise of this iterator was settled with an item in both
      have hpoint := Point.eq_of_held hheld
      have hpoint' := Point.eq_of_held ((h.held g).trans hheld)
      simp only [Mailbox.resume, hpoint, hpoint']
      have hmoved : ∀ g', (((m'.setPoint g .yielded).answer (.item x)).iterators g').held =
          (((m.setPoint g .yielded).answer (.item x)).iterators g').held := by
        intro g'
        by_cases hg : g' = g
        · simp [Mailbox.answer, hg]
        · simpa [Mailbox.answer, hg] using h.held g'
      refine ⟨h.queue, by simp [Mailbox.answer, Mailbox.setPoint, h.items], hmoved, ?_, h.done,
        fun hmore => absurd hqueue hmore⟩
      intro w hw
      by_cases hg : w = g
      · simp [Mailbox.answer, hg, Point.held]
      · simpa [Mailbox.answer, hg] using h.waiting w hw
  · rcases h.same hqueue with ⟨hiterating, hiterators, hwaiters⟩
    simp only [Mailbox.resume, hiterators]
    split
    · exact h.both h.queue (by simp [Mailbox.answer, Mailbox.setPoint, h.items])
        (by simp [Mailbox.answer, Mailbox.setPoint, hiterators]) hiterating hwaiters rfl
    · exact h.both h.queue (by simp [Mailbox.answer, Mailbox.leave, Mailbox.setPoint, h.items])
        (by simp [Mailbox.answer, Mailbox.leave, Mailbox.setPoint, hiterators]) rfl hwaiters rfl
    · exact h.both h.queue (by simp [Mailbox.answer, Mailbox.leave, Mailbox.setPoint, h.items])
        (by simp [Mailbox.answer, Mailbox.leave, Mailbox.setPoint, hiterators]) rfl hwaiters rfl
    all_goals exact h

theorem Muted.close (h : Muted m m') : Muted m.close m'.close := by
  have hclosed : m'.close = m' := by simp [Mailbox.close, h.done]
  rw [hclosed]
  unfold Mailbox.close
  split
  · exact h
  · have hfold := still_foldl m.waiters { m with done := true, waiters := [] } h.waiting
    refine ⟨h.queue.trans hfold.1.symm, h.items.trans hfold.2.1.symm, fun g => (h.held g).trans (hfold.2.2.1 g).symm,
      by simp [hfold.2.2.2], h.done, ?_⟩
    intro hqueue
    rw [hfold.1] at hqueue
    rcases h.same hqueue with ⟨hiterating, hiterators, hwaiters⟩
    simp [hwaiters, hiterating, hiterators]

end Muted

end Mailbox

/-! ## Faults that do no harm -/

namespace Delivery

open Concurrency

variable {ε : Type}

/-- Nothing is thrown by `onApplied`, nor by `onState` at the states that a loop goes on from. -/
structure Faults.Harmless (f : Faults ε) : Prop where
  onApplied : ∀ ev, f.onApplied ev = none
  replaying : f.onState .replaying = none
  degraded : f.onState .degraded = none

theorem Faults.harmless_none : Faults.Harmless ({} : Faults ε) :=
  ⟨fun _ => rfl, rfl, rfl⟩

/-- The states of a failed delivery whose mailbox has not been told, and of one whose mailbox has. -/
structure Muted (s s' : State ε) : Prop where
  state : s' = { s with out := s'.out }
  failed : s.state = .failed
  loops : s.loops = []
  out : s.out.Muted s'.out

/-- The states after a turn with the faults `f` and after the same turn without. -/
def Agree (f : Faults ε) (s s' : State ε) : Prop :=
  s = s' ∨ f.onState .failed ≠ none ∧ Muted s s'

namespace Faulty

section Pieces

variable {f : Faults ε} {s : State ε}

theorem setState_state (f : Faults ε) (st : DeliveryState) (s : State ε) :
    (setState f st s).state = Delivery.setState .quiet st s := by
  unfold setState Delivery.setState State.announce
  split
  · rfl
  · rfl

theorem setState_andThen {st : DeliveryState} (h : f.onState st = none) (k : State ε → State ε) :
    (setState f st s).andThen k = k (Delivery.setState .quiet st s) := by
  have hreturns : (setState f st s).thrown = none := by
    unfold setState
    split
    · rfl
    · exact h
  rw [Outcome.andThen, hreturns, setState_state]

theorem setState_quiet (st : DeliveryState) (s : State ε) :
    (Delivery.setState .quiet st s).state = st ∧ (Delivery.setState .quiet st s).loops = s.loops ∧
      (Delivery.setState .quiet st s).out = s.out := by
  unfold Delivery.setState State.announce
  split
  · next hst => exact ⟨hst, rfl, rfl⟩
  · exact ⟨rfl, rfl, rfl⟩

theorem fail_agree (f : Faults ε) (err : DeliveryFailedError ε) (hloops : s.loops = []) (hqueue : s.out.IsQueue) :
    Agree f (fail f err s) (Delivery.fail .quiet err s) := by
  rcases setState_quiet .failed { s with recovering := false } with ⟨hstate, hsame, hout⟩
  by_cases hreturns : f.onState .failed = none
  · exact .inl (setState_andThen hreturns _)
  · cases hthrown : (setState f .failed { s with recovering := false }).thrown with
    | none =>
      left
      simp only [fail, Delivery.fail, Outcome.andThen, hthrown, setState_state]
    | some e =>
      right
      simp only [fail, Delivery.fail, Outcome.andThen, hthrown, setState_state]
      refine ⟨hreturns, rfl, hstate, hsame.trans hloops, ?_⟩
      simp only [hout]
      exact hqueue.muted_error err

section Harmless

variable (h : f.Harmless)
include h

theorem drain_eq (n : Nat) : ∀ s : State ε, drain f n s = ⟨Delivery.drain .quiet n s, none⟩ := by
  induction n with
  | zero => exact fun s => rfl
  | succ n ih =>
    intro s
    cases hnext : s.pending.lookup (s.applied + 1) with
    | none => simp [drain, Delivery.drain, hnext]
    | some next =>
      simp only [drain, Delivery.drain, hnext, h.onApplied]
      exact ih _

theorem drainContiguous_andThen (k : State ε → State ε) :
    (drainContiguous f s).andThen k = k (Delivery.drainContiguous .quiet s) := by
  rw [drainContiguous, drain_eq h]
  rfl

theorem recover_eq (initial : Bool) (s : State ε) : recover f initial s = Delivery.recover .quiet initial s :=
  setState_andThen h.replaying _

theorem offer_eq (ev : LogEvent) (s : State ε) : offer f ev s = Delivery.offer .quiet ev s := by
  simp only [offer, Delivery.offer, drainContiguous_andThen h, recover_eq h]

theorem prime_eq (s : State ε) : prime f s = Delivery.prime .quiet s := by
  simp only [prime, Delivery.prime, recover_eq h]

theorem afterLoop_eq (s : State ε) : afterLoop f s = Delivery.afterLoop .quiet s := by
  simp only [afterLoop, Delivery.afterLoop, drainContiguous_andThen h, recover_eq h, setState_state]

theorem nextPass_eq (attempt : Nat) (needPass : Bool) (s : State ε) :
    nextPass f attempt needPass s = Delivery.nextPass .quiet attempt needPass s := by
  simp only [nextPass, Delivery.nextPass, afterLoop_eq h]

theorem passItem_eq (attempt : Nat) (needPass : Bool) (fromSequence : Int) (ev : LogEvent) (s : State ε) :
    passItem f attempt needPass fromSequence ev s =
      ⟨Delivery.passItem .quiet attempt needPass fromSequence ev s, none⟩ := by
  unfold passItem Delivery.passItem
  split
  · rfl
  · split
    · rfl
    · rw [drainContiguous, drain_eq h]
      rfl

theorem passEnd_agree (backoff : List Nat) (attempt : Nat) (hloops : s.loops = []) (hqueue : s.out.IsQueue) :
    Agree f (passEnd backoff f attempt s) (Delivery.passEnd backoff .quiet attempt s) := by
  unfold passEnd Delivery.passEnd
  split
  · exact .inl (afterLoop_eq h s)
  · split
    · exact fail_agree f _ hloops hqueue
    · exact .inl (setState_andThen h.degraded _)

theorem passThrow_agree (backoff : List Nat) (attempt : Nat) (needPass : Bool) (fromSequence : Int) (err : ε)
    (hloops : s.loops = []) (hqueue : s.out.IsQueue) :
    Agree f (passThrow backoff f attempt needPass fromSequence err s)
      (Delivery.passThrow backoff .quiet attempt needPass fromSequence err s) := by
  rcases setState_quiet .degraded s with ⟨-, hsame, hout⟩
  unfold passThrow Delivery.passThrow
  rw [setState_andThen h.degraded]
  split
  · exact fail_agree f _ (hsame.trans hloops) (hout ▸ hqueue)
  · exact .inl rfl

end Harmless

end Pieces

/-! ## Two runs of one schedule -/

def Turn.faults : Turn ε → Faults ε
  | .offer f _ | .prime f | .item f _ _ | .ended f _ | .thrown f _ _ | .unwound f _ | .waited f _ => f
  | .close | .consume _ | .resume _ => {}

def Turn.event : Turn ε → Option (Event ε)
  | .offer _ ev => some (.offer .quiet ev)
  | .prime _ => some (.prime .quiet)
  | .close => some .close
  | .item _ i ev => some (.item .quiet i ev)
  | .ended _ i => some (.ended .quiet i)
  | .thrown _ i err => some (.thrown .quiet i err)
  | .unwound _ _ => none
  | .waited _ i => some (.waited .quiet i)
  | .consume c => some (.consume c)
  | .resume g => some (.resume g)

def advance (backoff : List Nat) (s : State ε) (e : Option (Event ε)) : State ε :=
  (e.bind (Delivery.step backoff s)).getD s

def Queued (_ : Option Recovery) (s : State ε) : Prop :=
  s.out.IsQueue

theorem outline_queued : Outline (fun _ => True) (@Queued ε) where
  close := by
    intro m s h
    unfold State.close
    split
    · exact h
    · exact Mailbox.IsQueue.close h
  out := fun h hout => hout h
  put := fun h _ _ _ => h
  apply := fun h _ _ => h
  start := fun h _ _ _ => h
  suspend := fun h _ => h
  wake := fun h _ => h
  dropped := fun h _ => h
  degraded := fun h => h
  live := fun h _ _ _ _ _ => h
  leave := fun h _ => h

theorem settled_start : Settled Queued ({} : State ε) where
  holds := ⟨⟨by simp [State.Keyed], rfl⟩, none, [], Mailbox.inv_empty⟩
  drained := Finmap.lookup_empty _

theorem settled_step {backoff : List Nat} {s s' : State ε} {e : Event ε} (h : Settled Queued s)
    (hstep : Delivery.step backoff s e = some s') : Settled Queued s' := by
  cases e with
  | ended l i =>
    rcases h.ended outline_queued hstep with ⟨r, t, -, hwakes, -, rfl⟩
    have hloop := hwakes.holds.regular
    refine ⟨?_, hwakes.drained.of_keeps (keeps_passEnd l hwakes.drained backoff _)⟩
    exact Holds.passEnd outline_queued (fun _ => ⟨hwakes.regular, hwakes.holds.prop⟩)
      (fun _ _ => ⟨⟨hwakes.regular.keyed, hwakes.regular.loops⟩, hwakes.holds.prop⟩)
      (fun _ _ => ⟨⟨hloop.keyed, hloop.loops⟩, hwakes.holds.prop⟩) hwakes.drained l
  | thrown l i err =>
    rcases h.thrown outline_queued hstep with ⟨r, t, fromSequence, -, hwakes, -, rfl⟩
    have hloop := hwakes.holds.regular
    refine ⟨?_, hwakes.drained.of_keeps (keeps_passThrow l backoff _ _ _ _)⟩
    refine Holds.passThrow outline_queued ⟨⟨hloop.keyed, hloop.loops⟩, hwakes.holds.prop⟩ ?_ l
    intro _ t ht
    exact ⟨⟨ht.regular.keyed, by simp [ht.regular.running.2]⟩, ht.prop⟩
  | waited l i =>
    rcases h.waited outline_queued hstep with ⟨r, t, hwakes, -, rfl⟩
    have hloop := hwakes.holds.regular
    refine ⟨?_, hwakes.drained.of_keeps (keeps_nextPass l hwakes.drained _ _)⟩
    exact Holds.nextPass outline_queued (fun _ => ⟨⟨hloop.keyed, hloop.loops⟩, hwakes.holds.prop⟩)
      ⟨hwakes.regular, hwakes.holds.prop⟩ hwakes.drained l
  | offer _ _ | prime _ | close | item _ _ _ | consume _ | resume _ =>
    exact h.minor outline_queued hstep trivial

theorem settled_advance (backoff : List Nat) {s : State ε} (h : Settled Queued s) (e : Option (Event ε)) :
    Settled Queued (advance backoff s e) := by
  unfold advance
  cases hstep : e.bind (Delivery.step backoff s) with
  | none => exact h
  | some s' =>
    rcases Option.bind_eq_some_iff.1 hstep with ⟨e', -, hs'⟩
    exact settled_step h hs'

section Turns

variable (backoff : List Nat) {s s' : State ε} {t : Turn ε}

def Turn.loop : Turn ε → Option Nat
  | .item _ i _ | .ended _ i | .thrown _ i _ | .waited _ i => some i
  | .offer .. | .prime _ | .close | .unwound .. | .consume _ | .resume _ => none

theorem turn_asleep {i : Nat} (ht : t.loop = some i) (hwake : s.wake i = none) :
    Run.turn backoff ⟨s, []⟩ t = ⟨s, []⟩ ∧ advance backoff s t.event = s := by
  cases t <;> cases ht <;> simp [Run.turn, Run.step, advance, Turn.event, Delivery.step, hwake]

def Turn.late (s : State ε) : Turn ε → State ε
  | .close => s.close
  | .consume c => { s with out := (s.out.call c).getD s.out }
  | .resume g => { s with out := (s.out.resume g).getD s.out }
  | .offer .. | .prime _ | .item .. | .ended .. | .thrown .. | .unwound .. | .waited .. => s

theorem turn_consume (s : State ε) (c : ConsumerCall) :
    Run.turn backoff ⟨s, []⟩ (.consume c) = ⟨{ s with out := (s.out.call c).getD s.out }, []⟩ :=
  Option.getD_map _ s.out (s.out.call c)

theorem turn_resume (s : State ε) (g : Nat) :
    Run.turn backoff ⟨s, []⟩ (.resume g) = ⟨{ s with out := (s.out.resume g).getD s.out }, []⟩ :=
  Option.getD_map _ s.out (s.out.resume g)

theorem agree_asleep {i : Nat} (ht : t.loop = some i) (hwake : s.wake i = none) :
    ∃ s₁, Run.turn backoff ⟨s, []⟩ t = ⟨s₁, []⟩ ∧ Agree t.faults s₁ (advance backoff s t.event) := by
  rcases turn_asleep backoff ht hwake with ⟨hturn, hadvance⟩
  exact ⟨s, hturn, .inl hadvance.symm⟩

theorem turn_agree (hs : Settled Queued s) (h : t.faults.Harmless) :
    ∃ s₁, Run.turn backoff ⟨s, []⟩ t = ⟨s₁, []⟩ ∧ Agree t.faults s₁ (advance backoff s t.event) := by
  cases t with
  | offer f ev => exact ⟨_, rfl, .inl (offer_eq h ev s)⟩
  | prime f => exact ⟨_, rfl, .inl (prime_eq h s)⟩
  | close | unwound f i => exact ⟨_, rfl, .inl rfl⟩
  | item f i ev =>
    cases hwake : s.wake i with
    | none => exact agree_asleep backoff rfl hwake
    | some p =>
      rcases p with ⟨⟨attempt, needPass, awaits⟩, t⟩
      simp only [Run.turn, Run.step, hwake, advance, Turn.event, Delivery.step, Option.bind_some]
      cases awaits with
      | item fromSequence =>
        have hf : f.Harmless := h
        simp only [onItem, passItem_eq hf]
        exact ⟨_, rfl, .inl rfl⟩
      | leaving _ | backoff => exact ⟨s, rfl, .inl rfl⟩
  | ended f i =>
    cases hwake : s.wake i with
    | none => exact agree_asleep backoff rfl hwake
    | some p =>
      have hwakes := hs.wake outline_queued hwake
      rcases p with ⟨⟨attempt, needPass, awaits⟩, t⟩
      simp only [Run.turn, Run.step, hwake, advance, Turn.event, Delivery.step, Option.bind_some]
      have hagree := passEnd_agree h backoff attempt hwakes.holds.regular.running.2 hwakes.holds.prop
      cases awaits with
      | item _ | leaving _ => exact ⟨_, rfl, hagree⟩
      | backoff => exact ⟨s, rfl, .inl rfl⟩
  | thrown f i err =>
    cases hwake : s.wake i with
    | none => exact agree_asleep backoff rfl hwake
    | some p =>
      have hwakes := hs.wake outline_queued hwake
      rcases p with ⟨⟨attempt, needPass, awaits⟩, t⟩
      simp only [Run.turn, Run.step, hwake, advance, Turn.event, Delivery.step, Option.bind_some]
      have hagree := fun fromSequence => passThrow_agree h backoff attempt needPass fromSequence err
        hwakes.holds.regular.running.2 hwakes.holds.prop
      cases awaits with
      | item fromSequence | leaving fromSequence => exact ⟨_, rfl, hagree fromSequence⟩
      | backoff => exact ⟨s, rfl, .inl rfl⟩
  | waited f i =>
    cases hwake : s.wake i with
    | none => exact agree_asleep backoff rfl hwake
    | some p =>
      rcases p with ⟨⟨attempt, needPass, awaits⟩, t⟩
      simp only [Run.turn, Run.step, hwake, advance, Turn.event, Delivery.step, Option.bind_some]
      cases awaits with
      | item _ | leaving _ => exact ⟨s, rfl, .inl rfl⟩
      | backoff => exact ⟨_, rfl, .inl (nextPass_eq h _ _ _)⟩
  | consume c => exact ⟨_, turn_consume backoff s c, .inl (Option.getD_map ({ s with out := · }) s.out _).symm⟩
  | resume g =>
    exact ⟨_, turn_resume backoff s g, .inl (Option.getD_map ({ s with out := · }) s.out _).symm⟩

theorem turn_sound (hs : Settled Queued s) (t : Turn ε) :
    Run.turn backoff ⟨s, []⟩ t.sound = ⟨advance backoff s t.event, []⟩ := by
  have hnone : t.sound.faults = {} := by cases t <;> rfl
  have hevent : t.sound.event = t.event := by cases t <;> rfl
  rcases turn_agree backoff hs (hnone ▸ Faults.harmless_none) with ⟨s₁, hturn, hagree⟩
  rw [hnone, hevent] at hagree
  rcases hagree with heq | ⟨hthrows, -⟩
  · rw [hturn, heq]
  · exact absurd rfl hthrows

theorem turn_failed (t : Turn ε) (hfailed : s.state = .failed) (hloops : s.loops = []) :
    Run.turn backoff ⟨s, []⟩ t = ⟨t.late s, []⟩ := by
  have hasleep : ∀ i, s.wake i = none := by
    simp [State.wake, hloops]
  cases t with
  | offer f ev => simp [Run.turn, Run.step, Run.goOn, offer, hfailed, Turn.late]
  | prime f => simp [Run.turn, Run.step, Run.goOn, prime, State.idle, hfailed, Turn.late]
  | close | unwound f i => rfl
  | item f i ev => exact (turn_asleep backoff rfl (hasleep i)).1
  | ended f i => exact (turn_asleep backoff rfl (hasleep i)).1
  | thrown f i err => exact (turn_asleep backoff rfl (hasleep i)).1
  | waited f i => exact (turn_asleep backoff rfl (hasleep i)).1
  | consume c => exact turn_consume backoff s c
  | resume g => exact turn_resume backoff s g

theorem muted_late (h : Muted s s') (t : Turn ε) : Muted (t.late s) (t.late s') := by
  obtain ⟨out', rfl⟩ : ∃ out', s' = { s with out := out' } := ⟨_, h.state⟩
  cases t with
  | close =>
    simp only [Turn.late, State.close]
    split
    · exact h
    · exact ⟨rfl, h.failed, h.loops, h.out.close⟩
  | consume c => exact ⟨rfl, h.failed, h.loops, h.out.call c⟩
  | resume g => exact ⟨rfl, h.failed, h.loops, h.out.resume g⟩
  | offer | prime | item | ended | thrown | unwound | waited => exact h

theorem turn_muted (h : Muted s s') (t : Turn ε) :
    ∃ s₁ s₁', Run.turn backoff ⟨s, []⟩ t = ⟨s₁, []⟩ ∧ Run.turn backoff ⟨s', []⟩ t.sound = ⟨s₁', []⟩ ∧
      Muted s₁ s₁' := by
  have hstate : s'.state = .failed ∧ s'.loops = [] := by
    rw [h.state]
    exact ⟨h.failed, h.loops⟩
  have hlate : t.sound.late s' = t.late s' := by cases t <;> rfl
  refine ⟨_, _, turn_failed backoff t h.failed h.loops,
    turn_failed backoff t.sound hstate.1 hstate.2, ?_⟩
  rw [hlate]
  exact muted_late h t

end Turns

inductive Linked : Run ε → Run ε → Prop where
  | same {s : State ε} : Settled Queued s → Linked ⟨s, []⟩ ⟨s, []⟩
  | muted {s s' : State ε} : Muted s s' → Linked ⟨s, []⟩ ⟨s', []⟩

theorem Linked.turn {backoff : List Nat} {d d' : Run ε} (h : Linked d d') {t : Turn ε} (ht : t.faults.Harmless) :
    Linked (d.turn backoff t) (d'.turn backoff t.sound) := by
  cases h with
  | same hs =>
    rcases turn_agree backoff hs ht with ⟨s₁, hturn, hagree⟩
    rw [hturn, turn_sound backoff hs]
    rcases hagree with rfl | ⟨-, hmuted⟩
    · exact .same (settled_advance backoff hs t.event)
    · exact .muted hmuted
  | muted hm =>
    rcases turn_muted backoff hm t with ⟨s₁, s₁', hturn, hturn', hmuted⟩
    rw [hturn, hturn']
    exact .muted hmuted

theorem Linked.schedule (backoff : List Nat) (ts : List (Turn ε)) :
    ∀ {d d' : Run ε}, Linked d d' → (∀ t ∈ ts, t.faults.Harmless) →
      Linked (ts.foldl (Run.turn backoff) d) ((ts.map Turn.sound).foldl (Run.turn backoff) d') := by
  induction ts with
  | nil => exact fun h _ => h
  | cons t ts ih =>
    intro d d' h hts
    exact ih (h.turn (hts t List.mem_cons_self)) fun t' ht' => hts t' (List.mem_cons_of_mem _ ht')

theorem Linked.seen {d d' : Run ε} (h : Linked d d') :
    items d.delivery.out.answers = items d'.delivery.out.answers ∧
      d.delivery.recovering = d'.delivery.recovering := by
  cases h with
  | same _ => exact ⟨rfl, rfl⟩
  | muted hm =>
    refine ⟨hm.out.items.symm, ?_⟩
    rw [hm.state]

/-- What the consumer gets and the recovering flag do not depend on whether the listeners throw, as long
as `onApplied` does not, and `onState` does so at `live` and `failed` only. -/
theorem faults_do_no_harm (backoff : List Nat) (ts : List (Turn ε)) (h : ∀ t ∈ ts, t.faults.Harmless) :
    items (Run.schedule backoff ts).delivery.out.answers =
        items (Run.schedule backoff (ts.map Turn.sound)).delivery.out.answers ∧
      (Run.schedule backoff ts).delivery.recovering =
        (Run.schedule backoff (ts.map Turn.sound)).delivery.recovering :=
  (Linked.schedule backoff ts (.same settled_start) h).seen

namespace Scenario

def atState (states : List DeliveryState) : Faults Unit :=
  { onState := fun st => if st ∈ states then some () else none }

def tapThrows : List (Turn Unit) :=
  [.offer { onApplied := fun _ => some () } (Delivery.Scenario.bareLog.fact 1), .consume (.next 0)]

/-- The history is empty; the listener of the delivery state throws at the first state it is told. -/
def stateThrows : List (Turn Unit) :=
  [.prime (atState [.replaying]), .ended {} 0]

/-- The listener throws when the delivery is live, and when it has failed at the gap before the third
fact. -/
def harmless : List (Turn Unit) :=
  let f := atState [.live, .failed]
  [.prime f, .item f 0 (Delivery.Scenario.bareLog.fact 1), .ended f 0, .consume (.next 0),
    .offer f (Delivery.Scenario.bareLog.fact 3), .ended f 0, .consume (.next 0)]

end Scenario

/-- A fact is lost if the tap throws at it; a delivery is recovering for ever, without a loop, if the
listener throws at `replaying`. -/
theorem throwing_listener_corrupts :
    (items (Run.schedule defaultBackoff Scenario.tapThrows).delivery.out.answers).map (·.sequence) = [] ∧
      (items (Run.schedule defaultBackoff (Scenario.tapThrows.map Turn.sound)).delivery.out.answers).map
        (·.sequence) = [1] ∧
      (Run.schedule defaultBackoff Scenario.stateThrows).delivery.recovering = true ∧
      (Run.schedule defaultBackoff (Scenario.stateThrows.map Turn.sound)).delivery.recovering = false := by
  decide +kernel

theorem faults_do_no_harm_gap :
    (Run.schedule [100] Scenario.harmless).delivery.state = .failed ∧
      items (Run.schedule [100] Scenario.harmless).delivery.out.answers =
        items (Run.schedule [100] (Scenario.harmless.map Turn.sound)).delivery.out.answers := by
  have hharmless : ∀ t ∈ Scenario.harmless, t.faults.Harmless := by
    intro t ht
    simp only [Scenario.harmless, List.mem_cons, List.not_mem_nil, or_false] at ht
    rcases ht with rfl | rfl | rfl | rfl | rfl | rfl | rfl <;> exact ⟨fun _ => rfl, rfl, rfl⟩
  exact ⟨by decide +kernel, (faults_do_no_harm [100] Scenario.harmless hharmless).1⟩

end Faulty
end Delivery
end RelayPoint.Sdk
