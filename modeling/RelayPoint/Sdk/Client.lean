import RelayPoint.Sdk.Ordering

/-!
# Client — a delivery with its subscription and its replay store

`InteractionHandle` feeds a delivery from two sources: the live subscription, and the replay of the
log that a `recover` loop asks for.  Both read the messages of the log, which are numbered from `0`
here and may fail to decode: in the callback of the subscription such a message is lost, and a
replay pass throws at it.

A pass replays the log from its start, as the transport does.  When it ends is left to the
environment: `Complete` is a store that can be reached and whose passes go on to the last fact that
was offered live.
-/

namespace RelayPoint.Sdk

open Concurrency Delivery

variable {ε : Type}

structure Client (ε : Type) where
  delivery : State ε := {}
  durable : Nat := 0
  seen : Nat := 0
  cursor : Nat := 0
  extent : Nat := 0
  target : Nat := 0

inductive Turn (ε : Type) where
  | persist
  | live (l : Listener) (n : Nat)
  /-- The replay of the loop number `i` comes to the next message, ends, or fails by itself. -/
  | next (l : Listener) (i : Nat)
  | finish (l : Listener) (i : Nat)
  | lost (l : Listener) (i : Nat) (err : ε)
  | prime (l : Listener)
  | close
  | waited (l : Listener) (i : Nat)
  | consume (c : ConsumerCall)
  | resume (g : Nat)

namespace Client

/-- The client after a turn of its delivery.  Only a turn in which no loop is suspended before, or a
loop goes on from the end of a pass or a backoff, starts a pass. -/
def after (c : Client ε) (d : State ε) : Event ε → Client ε
  | .item .. => { c with delivery := d, cursor := c.cursor + 1 }
  | .ended .. | .thrown .. | .waited .. => { c with delivery := d, cursor := 0, extent := c.durable }
  | .offer .. | .prime .. | .close | .consume .. | .resume .. =>
    { c with delivery := d, extent := if c.delivery.loops.isEmpty then c.durable else c.extent }

variable (backoff : List Nat) (log : List (Except ε LogEvent))

def turn (c : Client ε) (e : Event ε) : Option (Client ε) :=
  (Delivery.step backoff c.delivery e).map fun d => c.after d e

def step (c : Client ε) : Turn ε → Option (Client ε)
  | .persist => if c.durable < log.length then some { c with durable := c.durable + 1 } else none
  | .live l n =>
    match (log.take c.durable)[n]? with
    | some (.ok ev) => { c with seen := max c.seen (n + 1) }.turn backoff (.offer l ev)
    | some (.error _) => some c
    | none => none
  | .next l i =>
    match (log.take c.durable)[c.cursor]? with
    | some (.ok ev) => c.turn backoff (.item l i ev)
    | some (.error err) => c.turn backoff (.thrown l i err)
    | none => none
  | .finish l i => c.turn backoff (.ended l i)
  | .lost l i err => c.turn backoff (.thrown l i err)
  | .prime l => { c with target := c.durable }.turn backoff (.prime l)
  | .close => c.turn backoff .close
  | .waited l i => c.turn backoff (.waited l i)
  | .consume call => c.turn backoff (.consume call)
  | .resume g => c.turn backoff (.resume g)

end Client

theorem Client.turn_eq_some {backoff : List Nat} {c c' : Client ε} {e : Event ε}
    (h : c.turn backoff e = some c') :
    ∃ d, Delivery.step backoff c.delivery e = some d ∧ c' = c.after d e := by
  rcases Option.map_eq_some_iff.1 h with ⟨d, hd, rfl⟩
  exact ⟨d, hd, rfl⟩

/-- The store can be reached, and a pass that ends has gone on to the last fact that was offered. -/
def Complete (c : Client ε) : Turn ε → Prop
  | .finish .. => c.delivery.closed = true ∨ c.seen ≤ c.cursor
  | .lost .. => False
  | .persist | .live .. | .next .. | .prime .. | .close | .waited .. | .consume .. | .resume .. => True

instance (c : Client ε) : (t : Turn ε) → Decidable (Complete c t)
  | .finish .. => instDecidableOr
  | .lost .. => instDecidableFalse
  | .persist | .live .. | .next .. | .prime .. | .close | .waited .. | .consume .. | .resume .. =>
    instDecidableTrue

def Numbered (log : List (Except ε LogEvent)) : Prop :=
  ∀ (n : Nat) (x : Except ε LogEvent), log[n]? = some x → ∃ ev, x = .ok ev ∧ ev.sequence = n + 1

/-! ## Progress of a pass -/

section Progress

variable {s : State ε} (l : Listener)

theorem applied_le_drain (n : Nat) : ∀ {s : State ε}, s.Keyed → s.applied ≤ (drain l n s).applied := by
  induction n with
  | zero => exact fun _ => le_rfl
  | succ n ih =>
    intro s h
    cases hnext : s.pending.lookup (s.applied + 1) with
    | none => rw [drain_none l _ hnext]
    | some next =>
      have hkey : s.applied + 1 = next.sequence := h _ _ hnext
      have hround := keeps_round l next s
      calc s.applied
          ≤ next.sequence := by omega
        _ = (round l next s).applied := hround.applied.symm
        _ ≤ (drain l n (round l next s)).applied := ih ((h.apply next).of_keeps hround)
        _ = (drain l (n + 1) s).applied := by rw [drain_some l n hnext]

theorem applied_putDrained {ev : LogEvent} (h : s.Keyed) (hnext : ev.sequence = s.applied + 1) :
    ev.sequence ≤ (drainContiguous l (s.put ev)).applied := by
  have hlookup : (s.put ev).pending.lookup (s.applied + 1) = some ev := by
    rw [← hnext]
    exact Finmap.lookup_insert _
  have hround := keeps_round l ev (s.put ev)
  unfold Delivery.drainContiguous
  rw [← size_erase hlookup, drain_some l _ hlookup]
  calc ev.sequence
      = (round l ev (s.put ev)).applied := hround.applied.symm
    _ ≤ _ := applied_le_drain l _ (((h.put ev).apply ev).of_keeps hround)

theorem applied_passItem {ev : LogEvent} (h : s.Keyed) (hopen : s.closed = false)
    (hnext : ev.sequence ≤ s.applied + 1) (attempt : Nat) (needPass : Bool) (fromSequence : Int) :
    ev.sequence ≤ (passItem l attempt needPass fromSequence ev s).applied := by
  unfold Delivery.passItem
  rw [if_neg (by simp [hopen])]
  split
  · next hold => exact hold
  · next hnew =>
      exact applied_putDrained l h (by omega)

theorem applied_passItem_of_open {ev : LogEvent} {attempt : Nat} {needPass : Bool} {fromSequence : Int}
    (h : s.Keyed) (hopen : (passItem l attempt needPass fromSequence ev s).closed = false)
    (hnext : s.closed = false → ev.sequence ≤ s.applied + 1) :
    ev.sequence ≤ (passItem l attempt needPass fromSequence ev s).applied := by
  cases hclosed : s.closed with
  | false => exact applied_passItem l h hclosed (hnext hclosed) attempt needPass fromSequence
  | true => simp [passItem, hclosed, State.suspend] at hopen

end Progress

/-! ## Passes of a complete store

A pass of a complete store leaves no gap, so no loop makes a second one.  `b` bounds the sequences
that are pending, and the facts up to `n` have been yielded by the pass in progress. -/

structure Caught (b n : Nat) (m : Option Recovery) (s : State ε) : Prop where
  unfailed : s.state ≠ .failed
  nonneg : 0 ≤ s.applied
  first : ∀ r ∈ m.toList ++ s.loops, r.attempt = 0 ∧ (r.awaits = .backoff → s.closed = true)
  ahead : s.closed = false → ∀ k ev, s.pending.lookup k = some ev → s.applied < k ∧ k ≤ b
  caught : s.closed = false → n ≤ s.applied

section Caught

variable {b n : Nat} {m : Option Recovery} {s : State ε}

theorem Caught.mono {b' n' : Nat} (h : Caught b n m s) (hb : b ≤ b') (hn : n' ≤ n) : Caught b' n' m s :=
  ⟨h.unfailed, h.nonneg, h.first,
    fun hopen k ev hk => ⟨(h.ahead hopen k ev hk).1, (h.ahead hopen k ev hk).2.trans (by exact_mod_cast hb)⟩,
    fun hopen => le_trans (by exact_mod_cast hn) (h.caught hopen)⟩

theorem size_eq_zero_iff : s.size = 0 ↔ ∀ k, s.pending.lookup k = none := by
  constructor
  · intro h k
    have hempty : s.pending.keys = ∅ := Finset.card_eq_zero.1 h
    refine Finmap.lookup_eq_none.2 fun hmem => ?_
    have hkey : k ∈ s.pending.keys := Finmap.mem_keys.2 hmem
    simp [hempty] at hkey
  · intro h
    refine Finset.card_eq_zero.2 (Finset.eq_empty_of_forall_notMem fun k hk => ?_)
    exact Finmap.lookup_eq_none.1 (h k) (Finmap.mem_keys.1 hk)

theorem Caught.size_eq (h : Caught b n m s) (hopen : s.closed = false) (hb : b ≤ n) : s.size = 0 := by
  refine size_eq_zero_iff.2 fun k => ?_
  cases hk : s.pending.lookup k with
  | none => rfl
  | some ev =>
    have hbound := h.ahead hopen k ev hk
    have hcaught := h.caught hopen
    omega

theorem outline_caught (b n : Nat) : Outline (fun ev => ev.sequence ≤ b) (@Caught ε b n) where
  close := by
    intro m s h
    unfold State.close
    split
    · exact h
    · exact ⟨h.unfailed, h.nonneg, fun r hr => ⟨(h.first r hr).1, fun _ => rfl⟩, by simp, by simp⟩
  out := fun h _ => ⟨h.unfailed, h.nonneg, h.first, h.ahead, h.caught⟩
  put := by
    intro m s ev h hok _ hnew
    refine ⟨h.unfailed, h.nonneg, h.first, fun hopen k ev' hk => ?_, h.caught⟩
    simp only [State.put] at hk
    by_cases hkey : k = ev.sequence
    · exact hkey ▸ ⟨hnew, hok⟩
    · rw [Finmap.lookup_insert_of_ne _ hkey] at hk
      exact h.ahead hopen k ev' hk
  apply := by
    intro m s next h _ hnext
    refine ⟨h.unfailed, ?_, h.first, fun hopen k ev hk => ?_, fun hopen => ?_⟩
    · have := h.nonneg
      simp only [State.apply]
      omega
    · simp only [State.apply] at hk ⊢
      by_cases hkey : k = next.sequence
      · rw [hkey, Finmap.lookup_erase] at hk
        cases hk
      · rw [Finmap.lookup_erase_ne hkey] at hk
        have hbound := h.ahead hopen k ev hk
        omega
    · have := h.caught hopen
      simp only [State.apply]
      omega
  start := by
    intro s initial h _ hloops _
    refine ⟨by simp, h.nonneg, ?_, h.ahead, h.caught⟩
    simp [hloops]
  suspend := by
    intro r s h hloops
    refine ⟨h.unfailed, h.nonneg, ?_, h.ahead, h.caught⟩
    simpa [State.suspend, hloops] using h.first
  wake := by
    intro r s h hloops
    refine ⟨h.unfailed, h.nonneg, ?_, h.ahead, h.caught⟩
    simpa [hloops] using h.first
  dropped := by
    intro r s h _
    exact ⟨h.unfailed, h.nonneg, fun r hr => h.first r (List.mem_append_right _ hr), h.ahead, h.caught⟩
  degraded := fun h => ⟨by simp, h.nonneg, h.first, h.ahead, h.caught⟩
  live := fun h _ _ _ _ _ => ⟨by simp, h.nonneg, h.first, h.ahead, h.caught⟩
  leave := by
    intro attempt needPass fromSequence s h _
    refine ⟨h.unfailed, h.nonneg, ?_, h.ahead, h.caught⟩
    have hfirst := h.first
    simp only [Option.toList_some, List.singleton_append, List.forall_mem_cons] at hfirst ⊢
    exact ⟨⟨hfirst.1.1, by simp⟩, hfirst.2⟩

end Caught

def Client.Kept (c : Client ε) : Prop :=
  Settled (Caught (max c.seen c.cursor) c.cursor) c.delivery

section Kept

variable {backoff : List Nat} {log : List (Except ε LogEvent)} {c c' : Client ε}

theorem Client.Kept.start : ({} : Client ε).Kept where
  holds := ⟨⟨by simp [State.Keyed], rfl⟩, ⟨by simp, le_rfl, by simp, by simp, by simp⟩⟩
  drained := Finmap.lookup_empty _

theorem Caught.settled_mono {d : State ε} {b n b' n' : Nat} (h : Settled (Caught b n) d) (hb : b ≤ b')
    (hn : n' ≤ n) : Settled (Caught b' n') d :=
  ⟨⟨h.holds.regular, h.holds.prop.mono hb hn⟩, h.drained⟩

theorem Numbered.read (h : Numbered log) {k n : Nat} {x : Except ε LogEvent}
    (hx : (log.take k)[n]? = some x) : ∃ ev, x = .ok ev ∧ ev.sequence = n + 1 := by
  rw [List.getElem?_take] at hx
  split at hx
  · exact h n x hx
  · cases hx

theorem Client.Kept.offer (h : c.Kept) {ev : LogEvent} {n : Nat} (hev : ev.sequence = n + 1) (l : Listener)
    (hturn : { c with seen := max c.seen (n + 1) }.turn backoff (.offer l ev) = some c') : c'.Kept := by
  rcases Client.turn_eq_some hturn with ⟨d, hd, rfl⟩
  have hwide : Settled (Caught (max (max c.seen (n + 1)) c.cursor) c.cursor) c.delivery :=
    Caught.settled_mono h (by omega) le_rfl
  have hok : ev.sequence ≤ (max (max c.seen (n + 1)) c.cursor : Nat) := by omega
  exact hwide.minor (outline_caught _ _) hd hok

theorem Client.Kept.item (h : c.Kept) {ev : LogEvent} (hev : ev.sequence = c.cursor + 1) (l : Listener) (i : Nat)
    (hturn : c.turn backoff (.item l i ev) = some c') : c'.Kept := by
  rcases Client.turn_eq_some hturn with ⟨d, hd, rfl⟩
  have hwide : Settled (Caught (max c.seen (c.cursor + 1)) c.cursor) c.delivery :=
    Caught.settled_mono h (by omega) le_rfl
  have hok : ev.sequence ≤ (max c.seen (c.cursor + 1) : Nat) := by omega
  have hpassed := hwide.minor (outline_caught _ _) hd hok
  rcases hwide.item (outline_caught _ _) hd with ⟨attempt, needPass, fromSequence, t, hwakes, rfl⟩
  have hprop := hpassed.holds.prop
  refine ⟨⟨hpassed.holds.regular, hprop.unfailed, hprop.nonneg, hprop.first, hprop.ahead, ?_⟩, hpassed.drained⟩
  intro hopen
  have happlied := applied_passItem_of_open l hwakes.holds.regular.keyed hopen
    (fun hbefore => by have := hwakes.holds.prop.caught hbefore; omega)
  simp only [Client.after] at happlied ⊢
  omega

theorem Client.Kept.ended (h : c.Kept) (hback : 2 ≤ backoff.length)
    (hcomplete : c.delivery.closed = true ∨ c.seen ≤ c.cursor) (l : Listener) (i : Nat)
    (hturn : c.turn backoff (.ended l i) = some c') : c'.Kept := by
  rcases Client.turn_eq_some hturn with ⟨d, hd, rfl⟩
  rcases Settled.ended (outline_caught _ _) h hd with ⟨r, t, -, hwakes, -, rfl⟩
  have hrun := hwakes.holds
  have hempty : t.closed = false → t.size = 0 := by
    intro hopen
    refine hrun.prop.size_eq hopen ?_
    rw [hwakes.state] at hopen
    rcases hcomplete with hclosed | hle
    · exact absurd (hopen.symm.trans hclosed) (by simp)
    · omega
  -- the next pass yields from the start, and nothing is pending unless the delivery is closed
  have hreset : ∀ m : Option Recovery, (∀ r ∈ m, r.attempt = 0 ∧ t.closed = true) →
      Caught (max c.seen 0) 0 m t := by
    intro m hm
    refine ⟨hrun.prop.unfailed, hrun.prop.nonneg, ?_, ?_, fun _ => hrun.prop.nonneg⟩
    · intro r hr
      rw [hrun.regular.running.2, List.append_nil, Option.mem_toList] at hr
      exact ⟨(hm r hr).1, fun _ => (hm r hr).2⟩
    · intro hopen k ev hk
      rw [size_eq_zero_iff.1 (hempty hopen) k] at hk
      cases hk
  have hattempt : r.attempt = 0 := (hrun.prop.first _ List.mem_cons_self).1
  refine ⟨?_, hwakes.drained.of_keeps (keeps_passEnd l hwakes.drained backoff _)⟩
  refine Holds.passEnd (outline_caught _ _) ?_ ?_ ?_ hwakes.drained l
  · intro _
    have hnone := hreset none (by simp)
    exact ⟨hwakes.regular, ⟨hnone.unfailed, hnone.nonneg, hnone.first, hnone.ahead, hnone.caught⟩⟩
  · omega
  · intro hsize _
    have hclosed : t.closed = true := by
      cases hc : t.closed with
      | true => rfl
      | false => exact absurd (hempty hc) hsize
    refine ⟨⟨hrun.regular.keyed, hrun.regular.loops⟩, hreset _ ?_⟩
    intro r' hr'
    obtain rfl := Option.mem_some.1 hr'
    exact ⟨hattempt, hclosed⟩

theorem Client.Kept.waited (h : c.Kept) (l : Listener) (i : Nat)
    (hturn : c.turn backoff (.waited l i) = some c') : c'.Kept := by
  rcases Client.turn_eq_some hturn with ⟨d, hd, rfl⟩
  rcases Settled.waited (outline_caught _ _) h hd with ⟨r, t, hwakes, hawaits, rfl⟩
  have hrun := hwakes.holds
  have hclosed : t.closed = true := (hrun.prop.first _ List.mem_cons_self).2 hawaits
  have hback : Caught (max c.seen 0) 0 none ({ t with recovering := false } : State ε) :=
    ⟨hrun.prop.unfailed, hrun.prop.nonneg, by simp [hrun.regular.running.2], by simp [hclosed],
      fun _ => hrun.prop.nonneg⟩
  refine ⟨Holds.nextPass (outline_caught _ _) ?_ ⟨hwakes.regular, hback⟩ hwakes.drained l,
    hwakes.drained.of_keeps (keeps_nextPass l hwakes.drained _ _)⟩
  intro hopen
  exact absurd (hopen.symm.trans hclosed) (by simp)

theorem Client.Kept.step (h : c.Kept) (hlog : Numbered log) (hback : 2 ≤ backoff.length) {t : Turn ε}
    (hcomplete : Complete c t) (hstep : c.step backoff log t = some c') : c'.Kept := by
  cases t with
  | persist =>
    simp only [Client.step, Option.ite_none_right_eq_some, Option.some.injEq] at hstep
    rw [← hstep.2]
    exact h
  | live l n =>
    cases hx : (log.take c.durable)[n]? with
    | none => simp [Client.step, hx] at hstep
    | some x =>
      obtain ⟨ev, rfl, hev⟩ := hlog.read hx
      simp only [Client.step, hx] at hstep
      exact h.offer hev l hstep
  | next l i =>
    cases hx : (log.take c.durable)[c.cursor]? with
    | none => simp [Client.step, hx] at hstep
    | some x =>
      obtain ⟨ev, rfl, hev⟩ := hlog.read hx
      simp only [Client.step, hx] at hstep
      exact h.item hev l i hstep
  | finish l i => exact h.ended hback hcomplete l i hstep
  | lost l i err => exact hcomplete.elim
  | waited l i => exact h.waited l i hstep
  | prime l | close | consume call | resume g =>
    rcases Client.turn_eq_some hstep with ⟨d, hd, rfl⟩
    exact Settled.minor (outline_caught _ _) h hd trivial

theorem unfailed_of_complete (hlog : Numbered log) (hback : 2 ≤ backoff.length)
    (h : Trace.Reaches (Client.step backoff log) Complete {} c) : c.delivery.state ≠ .failed := by
  have hkept : c.Kept := h.invariant Client.Kept.start fun hc hallowed hs => hc.step hlog hback hallowed hs
  exact hkept.holds.prop.unfailed

end Kept

/-! ## An unreadable message

Every pass throws at the first message that cannot be read, so the delivery gives up. -/

section Unreadable

variable (backoff : List Nat) {log : List (Except ε LogEvent)}

abbrev Reached (log : List (Except ε LogEvent)) (c : Client ε) : Prop :=
  Trace.Reaches (Client.step backoff log) Complete {} c

structure SameControl (s s' : State ε) : Prop where
  loops : s'.loops = s.loops
  closed : s'.closed = s.closed

theorem sameControl_drain (n : Nat) : ∀ s : State ε, SameControl s (drain .quiet n s) := by
  induction n with
  | zero => exact fun s => ⟨rfl, rfl⟩
  | succ n ih =>
    intro s
    cases hnext : s.pending.lookup (s.applied + 1) with
    | none =>
      rw [drain_none _ _ hnext]
      exact ⟨rfl, rfl⟩
    | some next =>
      rw [drain_some _ n hnext]
      exact ⟨(ih _).loops, (ih _).closed⟩

/-- The first pass of a delivery, or a further one, has yielded `n` messages of the whole log. -/
structure Reading (log : List (Except ε LogEvent)) (attempt n : Nat) (c : Client ε) : Prop where
  durable : c.durable = log.length
  cursor : c.cursor = n
  closed : c.delivery.closed = false
  loops : ∃ fromSequence, c.delivery.loops = [⟨attempt, true, .item fromSequence⟩]

theorem control_passItem {s : State ε} (hclosed : s.closed = false) (hloops : s.loops = [])
    (attempt : Nat) (fromSequence : Int) (ev : LogEvent) :
    (passItem .quiet attempt true fromSequence ev s).closed = false ∧
      (passItem .quiet attempt true fromSequence ev s).loops = [⟨attempt, true, .item fromSequence⟩] := by
  unfold Delivery.passItem
  rw [if_neg (by simp [hclosed])]
  split
  · simp [State.suspend, hclosed, hloops]
  · have hdrain := sameControl_drain (s.put ev).size (s.put ev)
    simp only [drainContiguous, State.suspend, hdrain.closed, hdrain.loops]
    simp [State.put, hclosed, hloops]

theorem wake_zero {s : State ε} {r : Recovery} (hloops : s.loops = [r]) :
    s.wake 0 = some (r, { s with loops := [] }) := by
  simp [State.wake, hloops]

section Steps

variable {attempt n : Nat} {c : Client ε} (h : Reading log attempt n c)
include h

theorem Reading.read {x : Except ε LogEvent} (hn : log[n]? = some x) :
    (log.take c.durable)[c.cursor]? = some x := by
  rw [h.durable, h.cursor, List.take_length, hn]

theorem Reading.next_ok {ev : LogEvent} (hn : log[n]? = some (.ok ev)) :
    ∃ c', c.step backoff log (.next .quiet 0) = some c' ∧ Reading log attempt (n + 1) c' := by
  rcases h.loops with ⟨fromSequence, hloops⟩
  let t : State ε := { c.delivery with loops := [] }
  have hstep : c.step backoff log (.next .quiet 0) =
      some (c.after (passItem .quiet attempt true fromSequence ev t) (.item .quiet 0 ev)) := by
    simp only [Client.step, h.read hn, Client.turn, Delivery.step, wake_zero hloops, Option.bind_some, onItem,
      Option.map_some, t]
  have hcontrol := control_passItem (s := t) h.closed rfl attempt fromSequence ev
  exact ⟨_, hstep, h.durable, by simp [Client.after, h.cursor], hcontrol.1, fromSequence, hcontrol.2⟩

theorem Reading.next_error {err : ε} (hn : log[n]? = some (.error err)) :
    ∃ c', c.step backoff log (.next .quiet 0) = some c' ∧
      (c'.delivery.state = .failed ∨ attempt + 1 < backoff.length ∧ c'.durable = log.length ∧
        c'.delivery.closed = false ∧ c'.delivery.loops = [⟨attempt, true, .backoff⟩]) := by
  rcases h.loops with ⟨fromSequence, hloops⟩
  let t : State ε := { c.delivery with loops := [] }
  have hstep : c.step backoff log (.next .quiet 0) =
      some (c.after (passThrow backoff .quiet attempt true fromSequence err t) (.thrown .quiet 0 err)) := by
    simp only [Client.step, h.read hn, Client.turn, Delivery.step, wake_zero hloops, Option.bind_some, onThrow,
      Option.map_some, t]
  refine ⟨_, hstep, ?_⟩
  have hsaid : ∀ (st : DeliveryState) (s : State ε), (setState .quiet st s).state = st ∧
      SameControl s (setState .quiet st s) := by
    intro st s
    unfold setState State.announce
    split
    · next hst => exact ⟨hst, rfl, rfl⟩
    · exact ⟨rfl, rfl, rfl⟩
  simp only [Client.after, passThrow]
  split
  · exact .inl (hsaid .failed _).1
  · next hlimit =>
      have hcontrol := (hsaid .degraded t).2
      exact .inr ⟨Nat.lt_of_not_le hlimit, h.durable, by simpa [State.suspend, hcontrol.closed] using h.closed,
        by simp [State.suspend, hcontrol.loops, t]⟩

end Steps

theorem Reading.of_backoff {attempt : Nat} {c : Client ε} (hdurable : c.durable = log.length)
    (hclosed : c.delivery.closed = false) (hloops : c.delivery.loops = [⟨attempt, true, .backoff⟩]) :
    ∃ c', c.step backoff log (.waited .quiet 0) = some c' ∧ Reading log (attempt + 1) 0 c' := by
  let t : State ε := { c.delivery with loops := [] }
  have hstep : c.step backoff log (.waited .quiet 0) =
      some (c.after (nextPass .quiet (attempt + 1) true t) (.waited .quiet 0)) := by
    simp only [Client.step, Client.turn, Delivery.step, wake_zero hloops, Option.bind_some, onWaited,
      Option.map_some, t]
  have hpass : nextPass .quiet (attempt + 1) true t = t.suspend ⟨attempt + 1, true, .item (t.applied + 1)⟩ := by
    simp [nextPass, t, hclosed]
  rw [hpass] at hstep
  exact ⟨_, hstep, hdurable, rfl, hclosed, _, rfl⟩

section Runs

variable {n : Nat} {err : ε} (hbad : log[n]? = some (.error err))
variable (hgood : ∀ k < n, ∃ ev, log[k]? = some (.ok ev))

include hgood in
theorem Reading.reaches {attempt : Nat} {c : Client ε} (h : Reading log attempt 0 c)
    (hc : Reached backoff log c) : ∀ k ≤ n, ∃ c', Reached backoff log c' ∧ Reading log attempt k c' := by
  intro k
  induction k with
  | zero => exact fun _ => ⟨c, hc, h⟩
  | succ k ih =>
    intro hk
    rcases ih (Nat.le_of_succ_le hk) with ⟨c', hc', hreading⟩
    rcases hgood k hk with ⟨ev, hev⟩
    rcases hreading.next_ok backoff hev with ⟨c'', hstep, hnext⟩
    exact ⟨c'', hc'.tail (e := .next .quiet 0) trivial hstep, hnext⟩

include hbad hgood in
theorem Reading.fails (left : Nat) : ∀ {attempt : Nat} {c : Client ε}, backoff.length ≤ attempt + left →
    Reading log attempt 0 c → Reached backoff log c →
      ∃ c', Reached backoff log c' ∧ c'.delivery.state = .failed := by
  induction left with
  | zero =>
    intro attempt c hleft h hc
    rcases h.reaches backoff hgood hc n le_rfl with ⟨c', hc', hreading⟩
    rcases hreading.next_error backoff hbad with ⟨c'', hstep, hfailed | ⟨hlimit, -⟩⟩
    · exact ⟨c'', hc'.tail (e := .next .quiet 0) trivial hstep, hfailed⟩
    · omega
  | succ left ih =>
    intro attempt c hleft h hc
    rcases h.reaches backoff hgood hc n le_rfl with ⟨c', hc', hreading⟩
    rcases hreading.next_error backoff hbad with
      ⟨c'', hstep, hfailed | ⟨-, hdurable, hclosed, hloops⟩⟩
    · exact ⟨c'', hc'.tail (e := .next .quiet 0) trivial hstep, hfailed⟩
    · rcases Reading.of_backoff backoff hdurable hclosed hloops with ⟨c₃, hwaited, hagain⟩
      have hthrown : Reached backoff log c'' := hc'.tail (e := .next .quiet 0) trivial hstep
      exact ih (by omega) hagain (hthrown.tail (e := .waited .quiet 0) trivial hwaited)

include hbad hgood in
theorem fails_of_unreadable : ∃ c, Reached backoff log c ∧ c.delivery.state = .failed := by
  have hpersist : ∀ k ≤ log.length, Reached backoff log ({ durable := k } : Client ε) := by
    intro k
    induction k with
    | zero => exact fun _ => .start
    | succ k ih =>
      intro hk
      exact (ih (Nat.le_of_succ_le hk)).tail (e := .persist) trivial (if_pos hk)
  have hallowed : Complete ({ durable := log.length } : Client ε) (.prime .quiet) := trivial
  have hprimed := (hpersist log.length le_rfl).tail hallowed rfl
  exact Reading.fails backoff hbad hgood backoff.length (Nat.le_add_left _ _) ⟨rfl, rfl, rfl, 1, rfl⟩ hprimed

end Runs

end Unreadable

end RelayPoint.Sdk
