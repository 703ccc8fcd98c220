import RelayPoint.Sdk.Client

/-!
# Reconnect — what a client has applied once it is live again

After a reconnect the handle subscribes anew and primes its delivery, so that facts that were missed
meanwhile are replayed.  A delivery that is recovering ignores the call: if the pass in progress began
before those facts were durable, it ends without them and the delivery goes live
(`missed_during_pass`).  Otherwise a live delivery has applied all facts that were durable when
`prime` was called last (`reconnect_misses_nothing`).
-/

namespace RelayPoint.Sdk

open Concurrency Delivery

variable {ε : Type}

def Durable (c : Client ε) : Turn ε → Prop
  | .next .. => c.cursor < c.extent
  | .finish .. => c.delivery.closed = true ∨ c.cursor = c.extent
  | .lost .. => False
  | .persist | .live .. | .prime .. | .close | .waited .. | .consume .. | .resume .. => True

instance (c : Client ε) : (t : Turn ε) → Decidable (Durable c t)
  | .next .. => Nat.decLt _ _
  | .finish .. => instDecidableOr
  | .lost .. => instDecidableFalse
  | .persist | .live .. | .prime .. | .close | .waited .. | .consume .. | .resume .. => instDecidableTrue

def Delivery.Recovery.inPass (r : Recovery) : Bool :=
  match r.awaits with
  | .item _ => true
  | .leaving _ | .backoff => false

/-- `prime` is called on an open delivery that is not recovering, or whose pass in progress will yield
all facts that are durable. -/
def Heard (c : Client ε) : Turn ε → Prop
  | .prime .. => c.delivery.closed = false ∧
      (c.delivery.recovering = false ∨ c.delivery.loops.any Recovery.inPass = true ∧ c.extent = c.durable)
  | .persist | .live .. | .next .. | .finish .. | .lost .. | .close | .waited .. | .consume .. | .resume .. => True

instance (c : Client ε) : (t : Turn ε) → Decidable (Heard c t)
  | .prime .. => instDecidableAnd
  | .persist | .live .. | .next .. | .finish .. | .lost .. | .close | .waited .. | .consume .. | .resume .. =>
    instDecidableTrue

/-! ## What is owed

`target` facts were durable when `prime` was called last.  They have been applied, or the delivery is
not live: it has failed, it is closed, or a pass that will yield them is in progress. -/

structure Owes (target extent cursor : Nat) (m : Option Recovery) (s : State ε) : Prop where
  busy : s.recovering = true → s.state ≠ .live
  failed : s.state = .failed → m = none ∧ s.loops = []
  owed : target ≤ s.applied ∨ s.state ≠ .live ∧ (s.state = .failed ∨ s.closed = true ∨
    target ≤ extent ∧ ∃ r ∈ m.toList ++ s.loops, r.inPass = true)
  nonneg : 0 ≤ s.applied
  caught : s.closed = false → cursor ≤ s.applied

section Owes

variable {target extent cursor : Nat} {m : Option Recovery} {s : State ε}

theorem outline_owes (target extent cursor : Nat) : Outline (fun _ => True) (@Owes ε target extent cursor) where
  close := by
    intro m s h
    unfold State.close
    split
    · exact h
    · refine ⟨h.busy, h.failed, ?_, h.nonneg, by simp⟩
      rcases h.owed with hdone | ⟨hlive, -⟩
      · exact .inl hdone
      · exact .inr ⟨hlive, .inr (.inl rfl)⟩
  out := fun h _ => ⟨h.busy, h.failed, h.owed, h.nonneg, h.caught⟩
  put := fun h _ _ _ => ⟨h.busy, h.failed, h.owed, h.nonneg, h.caught⟩
  apply := by
    intro m s next h _ hnext
    have hless : s.applied ≤ (s.apply next).applied := by
      simp only [State.apply]
      omega
    refine ⟨h.busy, h.failed, ?_, h.nonneg.trans hless, fun hopen => (h.caught hopen).trans hless⟩
    rcases h.owed with hdone | hlater
    · exact .inl (hdone.trans hless)
    · exact .inr hlater
  start := by
    intro s initial h _ hloops hstate
    refine ⟨by simp, by simp, ?_, h.nonneg, h.caught⟩
    rcases h.owed with hdone | ⟨-, hfailed | hclosed | ⟨-, r, hr, -⟩⟩
    · exact .inl hdone
    · exact absurd hfailed hstate
    · exact .inr ⟨by simp, .inr (.inl hclosed)⟩
    · simp [hloops] at hr
  suspend := by
    intro r s h hloops
    refine ⟨h.busy, ?_, ?_, h.nonneg, h.caught⟩
    · intro hfailed
      exact absurd (h.failed hfailed).1 (by simp)
    · simpa [State.suspend, hloops] using h.owed
  wake := by
    intro r s h hloops
    refine ⟨h.busy, ?_, ?_, h.nonneg, h.caught⟩
    · intro hfailed
      exact absurd (h.failed hfailed).2 (by simp [hloops])
    · simpa [hloops] using h.owed
  dropped := by
    intro r s h hclosed
    refine ⟨by simp, fun hfailed => ⟨rfl, (h.failed hfailed).2⟩, ?_, h.nonneg, h.caught⟩
    rcases h.owed with hdone | ⟨hlive, -⟩
    · exact .inl hdone
    · exact .inr ⟨hlive, .inr (.inl hclosed)⟩
  degraded := by
    intro r s h
    refine ⟨by simp, by simp, ?_, h.nonneg, h.caught⟩
    rcases h.owed with hdone | ⟨-, hfailed | hlater⟩
    · exact .inl hdone
    · exact absurd (h.failed hfailed).1 (by simp)
    · exact .inr ⟨by simp, .inr hlater⟩
  live := by
    intro s h hrec hloops hopen hstate _
    refine ⟨by simp [hrec], by simp, ?_, h.nonneg, h.caught⟩
    rcases h.owed with hdone | ⟨-, hfailed | hclosed | ⟨-, r, hr, -⟩⟩
    · exact .inl hdone
    · exact absurd hfailed hstate
    · exact absurd (hopen.symm.trans hclosed) (by simp)
    · simp [hloops] at hr
  leave := by
    intro attempt needPass fromSequence s h hclosed
    refine ⟨h.busy, ?_, ?_, h.nonneg, h.caught⟩
    · intro hfailed
      exact absurd (h.failed hfailed).1 (by simp)
    · rcases h.owed with hdone | ⟨hlive, -⟩
      · exact .inl hdone
      · exact .inr ⟨hlive, .inr (.inl hclosed)⟩

theorem Owes.mono {extent' : Nat} (h : Owes target extent cursor m s) (hle : extent ≤ extent') :
    Owes target extent' cursor m s := by
  refine ⟨h.busy, h.failed, ?_, h.nonneg, h.caught⟩
  rcases h.owed with hdone | ⟨hlive, hfailed | hclosed | ⟨htarget, hpass⟩⟩
  · exact .inl hdone
  · exact .inr ⟨hlive, .inl hfailed⟩
  · exact .inr ⟨hlive, .inr (.inl hclosed)⟩
  · exact .inr ⟨hlive, .inr (.inr ⟨htarget.trans hle, hpass⟩)⟩

/-- Nothing is owed by the pass that a woken loop makes next, unless the delivery is closed. -/
def Paid (target : Nat) (s : State ε) : Prop :=
  target ≤ s.applied ∨ s.closed = true

theorem Owes.again {r : Recovery} (h : Holds (Owes target extent cursor) (some r) s) (hpaid : Paid target s)
    (extent' : Nat) (r' : Recovery) : Holds (Owes target extent' 0) (some r') s := by
  refine ⟨⟨h.regular.keyed, h.regular.loops⟩, h.prop.busy, ?_, ?_, h.prop.nonneg, fun _ => h.prop.nonneg⟩
  · intro hfailed
    exact absurd (h.prop.failed hfailed).1 (by simp)
  · rcases hpaid with hdone | hclosed
    · exact .inl hdone
    · exact .inr ⟨h.prop.busy h.regular.running.1, .inr (.inl hclosed)⟩

theorem Owes.over {r : Recovery} (h : Holds (Owes target extent cursor) (some r) s) (hpaid : Paid target s)
    (extent' : Nat) {st : DeliveryState} (hst : st = s.state ∨ st = .failed) :
    Holds (Owes target extent' 0) none { s with recovering := false, state := st } := by
  have hlive : st ≠ .live := by
    rcases hst with rfl | rfl
    · exact h.prop.busy h.regular.running.1
    · simp
  refine ⟨⟨h.regular.keyed, by simp [h.regular.running.2]⟩, by simp, fun _ => ⟨rfl, h.regular.running.2⟩, ?_,
    h.prop.nonneg, fun _ => h.prop.nonneg⟩
  rcases hpaid with hdone | hclosed
  · exact .inl hdone
  · exact .inr ⟨hlive, .inr (.inl hclosed)⟩

end Owes

/-! ## Runs -/

structure Client.Primed (c : Client ε) : Prop where
  settled : Settled (Owes c.target c.extent c.cursor) c.delivery
  extent_le : c.extent ≤ c.durable

section Primed

variable {backoff : List Nat} {log : List (Except ε LogEvent)} {c c' : Client ε}

theorem Client.Primed.start : ({} : Client ε).Primed where
  settled := ⟨⟨⟨by simp [State.Keyed], rfl⟩, ⟨by simp, by simp, .inl le_rfl, le_rfl, by simp⟩⟩,
    Finmap.lookup_empty _⟩
  extent_le := le_rfl

theorem Client.Primed.minor (h : c.Primed) {e : Event ε} {d : State ε}
    (hd : Delivery.step backoff c.delivery e = some d) (he : e.Minor fun _ => True) :
    Settled (Owes c.target (if c.delivery.loops.isEmpty then c.durable else c.extent) c.cursor) d ∧
      (if c.delivery.loops.isEmpty then c.durable else c.extent) ≤ c.durable := by
  have hpassed := h.settled.minor (outline_owes _ _ _) hd he
  split
  · exact ⟨⟨⟨hpassed.holds.regular, hpassed.holds.prop.mono h.extent_le⟩, hpassed.drained⟩, le_rfl⟩
  · exact ⟨hpassed, h.extent_le⟩

theorem Client.Primed.item (h : c.Primed) {ev : LogEvent} (hev : ev.sequence = c.cursor + 1) (l : Listener)
    (i : Nat) (hturn : c.turn backoff (.item l i ev) = some c') : c'.Primed := by
  rcases Client.turn_eq_some hturn with ⟨d, hd, rfl⟩
  have hpassed := h.settled.minor (outline_owes _ _ _) hd trivial
  rcases h.settled.item (outline_owes _ _ _) hd with ⟨attempt, needPass, fromSequence, t, hwakes, rfl⟩
  have hprop := hpassed.holds.prop
  refine ⟨⟨⟨hpassed.holds.regular, hprop.busy, hprop.failed, hprop.owed, hprop.nonneg, ?_⟩, hpassed.drained⟩,
    h.extent_le⟩
  intro hopen
  have happlied := applied_passItem_of_open l hwakes.holds.regular.keyed hopen
    (fun hbefore => by have := hwakes.holds.prop.caught hbefore; omega)
  simp only [Client.after] at happlied ⊢
  omega

theorem paid_of_wakes {r : Recovery} {t : State ε}
    (hwakes : Wakes (Owes c.target c.extent c.cursor) c.delivery r t)
    (hpass : r.inPass = true → c.delivery.closed = true ∨ c.cursor = c.extent) : Paid c.target t := by
  rcases hwakes.holds.prop.owed with hdone | ⟨-, hfailed | hclosed | ⟨htarget, r', hr', hin⟩⟩
  · exact .inl hdone
  · exact absurd (hwakes.holds.prop.failed hfailed).1 (by simp)
  · exact .inr hclosed
  · -- the loop that was to yield the facts is the one that has been woken
    obtain rfl : r' = r := by simpa [hwakes.holds.regular.running.2] using hr'
    cases hopen : t.closed with
    | true => exact .inr hopen
    | false =>
      have hcaught := hwakes.holds.prop.caught hopen
      rcases hpass hin with hclosed | hcursor
      · rw [hwakes.state] at hopen
        exact absurd (hopen.symm.trans hclosed) (by simp)
      · exact .inl (by omega)

theorem Client.Primed.ended (h : c.Primed) (hdurable : c.delivery.closed = true ∨ c.cursor = c.extent)
    (l : Listener) (i : Nat) (hturn : c.turn backoff (.ended l i) = some c') : c'.Primed := by
  rcases Client.turn_eq_some hturn with ⟨d, hd, rfl⟩
  rcases Settled.ended (outline_owes _ _ _) h.settled hd with ⟨r, t, -, hwakes, -, rfl⟩
  have hpaid := paid_of_wakes hwakes fun _ => hdurable
  refine ⟨⟨?_, hwakes.drained.of_keeps (keeps_passEnd l hwakes.drained backoff _)⟩, le_rfl⟩
  exact Holds.passEnd (outline_owes _ _ _) (fun _ => Owes.over hwakes.holds hpaid _ (.inl rfl))
    (fun _ _ => Owes.over hwakes.holds hpaid _ (.inr rfl)) (fun _ _ => Owes.again hwakes.holds hpaid _ _)
    hwakes.drained l

theorem Client.Primed.waited (h : c.Primed) (l : Listener) (i : Nat)
    (hturn : c.turn backoff (.waited l i) = some c') : c'.Primed := by
  rcases Client.turn_eq_some hturn with ⟨d, hd, rfl⟩
  rcases Settled.waited (outline_owes _ _ _) h.settled hd with ⟨r, t, hwakes, hawaits, rfl⟩
  have hpaid := paid_of_wakes hwakes fun hin => by simp [Recovery.inPass, hawaits] at hin
  refine ⟨⟨?_, hwakes.drained.of_keeps (keeps_nextPass l hwakes.drained _ _)⟩, le_rfl⟩
  exact Holds.nextPass (outline_owes _ _ _) (fun _ => Owes.again hwakes.holds hpaid _ _)
    (Owes.over hwakes.holds hpaid _ (.inl rfl)) hwakes.drained l

theorem Client.Primed.prime (h : c.Primed) {l : Listener} (hheard : Heard c (.prime l))
    (hturn : { c with target := c.durable }.turn backoff (.prime l) = some c') : c'.Primed := by
  rcases Client.turn_eq_some hturn with ⟨d, hd, rfl⟩
  obtain rfl : prime l c.delivery = d := Option.some.inj hd
  have hprop := h.settled.holds.prop
  have hdrained : (prime l c.delivery).Drained := h.settled.drained.of_keeps (keeps_prime l)
  rcases hheard with ⟨hopen, hbusy⟩
  by_cases hidle : c.delivery.idle = true
  · rcases recovering_of_idle hidle with ⟨hrec, -⟩
    have hloops := (h.settled.holds.regular.resting hrec).2
    have hbegun : Holds (Owes c.durable c.durable c.cursor)
        (some ⟨0, true, .item (c.delivery.applied + 1)⟩)
        { c.delivery with recovering := true, state := .replaying } :=
      ⟨⟨h.settled.holds.regular.keyed, by simp [hloops]⟩, by simp, by simp,
        .inr ⟨by simp, .inr (.inr ⟨le_rfl, _, List.mem_cons_self, rfl⟩)⟩, hprop.nonneg, hprop.caught⟩
    have hprime : prime l c.delivery = recover l true c.delivery := by
      simp [Delivery.prime, hidle]
    have hextent : (if c.delivery.loops.isEmpty then c.durable else c.extent) = c.durable := by
      simp [hloops]
    refine ⟨⟨?_, hdrained⟩, ?_⟩
    · simp only [Client.after, hextent, hprime]
      exact hbegun.begin (outline_owes _ _ _) (Holds.react (outline_owes _ _ _) _) (keeps_react _)
    · simp only [Client.after, hextent, le_refl]
  · have hprime : prime l c.delivery = c.delivery := by
      simp [Delivery.prime, hidle]
    have hregular := h.settled.holds.regular
    rw [hprime]
    cases hrec : c.delivery.recovering with
    | false =>
      -- an open delivery at rest that ignores the call has failed
      have hfailed : c.delivery.state = .failed := by
        simpa [State.idle, hrec, hopen] using hidle
      have hloops := (hregular.resting hrec).2
      refine ⟨⟨⟨hregular, hprop.busy, hprop.failed, .inr ⟨?_, .inl hfailed⟩, hprop.nonneg, hprop.caught⟩,
        h.settled.drained⟩, ?_⟩
      · simp [Client.after, hfailed]
      · simp [Client.after, hloops]
    | true =>
      rcases hbusy with hidle | ⟨hpass, hextent⟩
      · exact absurd (hrec.symm.trans hidle) (by simp)
      · rcases List.any_eq_true.1 hpass with ⟨r, hr, hin⟩
        have hle : c.durable ≤ if c.delivery.loops.isEmpty then c.durable else c.extent := by
          split
          · exact le_rfl
          · exact hextent.ge
        refine ⟨⟨⟨hregular, hprop.busy, hprop.failed,
          .inr ⟨hprop.busy hrec, .inr (.inr ⟨hle, r, by simpa [Client.after] using hr, hin⟩)⟩, hprop.nonneg, hprop.caught⟩,
          h.settled.drained⟩, ?_⟩
        simp only [Client.after]
        split
        · exact le_rfl
        · exact h.extent_le

theorem Client.Primed.step (h : c.Primed) (hlog : Numbered log) {t : Turn ε} (hdurable : Durable c t)
    (hheard : Heard c t) (hstep : c.step backoff log t = some c') : c'.Primed := by
  cases t with
  | persist =>
    simp only [Client.step, Option.ite_none_right_eq_some, Option.some.injEq] at hstep
    rw [← hstep.2]
    exact ⟨h.settled, Nat.le_succ_of_le h.extent_le⟩
  | live l n =>
    cases hx : (log.take c.durable)[n]? with
    | none => simp [Client.step, hx] at hstep
    | some x =>
      obtain ⟨ev, rfl, -⟩ := hlog.read hx
      simp only [Client.step, hx] at hstep
      rcases Client.turn_eq_some hstep with ⟨d, hd, rfl⟩
      rcases h.minor hd trivial with ⟨hsettled, hle⟩
      exact ⟨hsettled, hle⟩
  | next l i =>
    cases hx : (log.take c.durable)[c.cursor]? with
    | none => simp [Client.step, hx] at hstep
    | some x =>
      obtain ⟨ev, rfl, hev⟩ := hlog.read hx
      simp only [Client.step, hx] at hstep
      exact h.item hev l i hstep
  | finish l i => exact h.ended hdurable l i hstep
  | lost l i err => exact hdurable.elim
  | waited l i => exact h.waited l i hstep
  | prime l => exact h.prime hheard hstep
  | close | consume call | resume g =>
    rcases Client.turn_eq_some hstep with ⟨d, hd, rfl⟩
    rcases h.minor hd trivial with ⟨hsettled, hle⟩
    exact ⟨hsettled, hle⟩

end Primed

/-- A live delivery has applied every fact that was durable when `prime` was called last, if no call
was made while an older pass was in progress or on a closed delivery. -/
theorem reconnect_misses_nothing (backoff : List Nat) (log : List (Except ε LogEvent)) (hlog : Numbered log)
    {c : Client ε}
    (h : Trace.Reaches (Client.step backoff log) (fun c t => Durable c t ∧ Heard c t) {} c)
    (hlive : c.delivery.state = .live) : c.target ≤ c.delivery.applied := by
  have hprimed : c.Primed :=
    h.invariant Client.Primed.start fun hc hallowed hs => hc.step hlog hallowed.1 hallowed.2 hs
  rcases hprimed.settled.holds.prop.owed with hdone | ⟨hnot, -⟩
  · exact hdone
  · exact absurd hlive hnot

namespace Scenario

def twoFacts : List (Except Unit LogEvent) :=
  [.ok (Delivery.Scenario.bareLog.fact 1), .ok (Delivery.Scenario.bareLog.fact 2)]

theorem numbered_twoFacts : Numbered twoFacts := by
  intro n x hx
  rcases n with _ | _ | n
  · cases hx
    exact ⟨_, rfl, rfl⟩
  · cases hx
    exact ⟨_, rfl, rfl⟩
  · simp [twoFacts] at hx

/-- The connection drops while the first pass runs, and the second fact is missed: the pass began before
it was durable. -/
def reconnected : List (Turn Unit) :=
  [.persist, .prime .quiet, .persist, .prime .quiet, .next .quiet 0, .finish .quiet 0]

def reconnectedLater : List (Turn Unit) :=
  [.persist, .prime .quiet, .next .quiet 0, .finish .quiet 0, .persist, .prime .quiet,
    .next .quiet 0, .next .quiet 0, .finish .quiet 0]

end Scenario

/-- The delivery goes live without a fact that was durable when `prime` was called. -/
theorem missed_during_pass : Numbered Scenario.twoFacts ∧ ∃ c : Client Unit,
    Trace.Reaches (Client.step defaultBackoff Scenario.twoFacts) Durable {} c ∧
      c.delivery.state = .live ∧ c.delivery.applied < c.target := by
  have hrun : (Trace.execute (Client.step defaultBackoff Scenario.twoFacts) Durable
      Scenario.reconnected {}).map (fun c => (c.delivery.state, c.delivery.applied, c.target)) =
        some (.live, 1, 2) := by
    decide +kernel
  rcases Trace.exists_of_execute hrun with ⟨c, hc, hview⟩
  simp only [Prod.mk.injEq] at hview
  rcases hview with ⟨hlive, happlied, htarget⟩
  exact ⟨Scenario.numbered_twoFacts, c, hc, hlive, by omega⟩

theorem reconnect_misses_nothing_later : ∃ c : Client Unit, c.delivery.state = .live ∧ c.target = 2 ∧
    c.target ≤ c.delivery.applied := by
  have hrun : (Trace.execute (Client.step defaultBackoff Scenario.twoFacts)
      (fun c t => Durable c t ∧ Heard c t) Scenario.reconnectedLater {}).map
        (fun c => (c.delivery.state, c.target)) = some (.live, 2) := by
    decide +kernel
  rcases Trace.exists_of_execute hrun with ⟨c, hc, hview⟩
  rcases Prod.mk.inj hview with ⟨hlive, htarget⟩
  exact ⟨c, hlive, htarget,
    reconnect_misses_nothing defaultBackoff Scenario.twoFacts Scenario.numbered_twoFacts hc hlive⟩

end RelayPoint.Sdk
