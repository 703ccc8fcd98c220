import RelayPoint.Sdk.Delivery

/-!
# Outline — a rule for what holds throughout a delivery

The code of a delivery is made of a few updates of its state, with calls of the listeners in between.
`Keeps` says that a piece of code neither applies facts nor drops them, and `Regular` what holds of
every state: a fact is pending under its own sequence, and there is one `recover` loop just if
`recovering` is set.
-/

namespace RelayPoint.Sdk
namespace Delivery

variable {ε : Type}

/-! ## Facts -/

structure Keeps (s s' : State ε) : Prop where
  applied : s'.applied = s.applied
  pending : s'.pending = s.pending
  tapped : s'.tapped = s.tapped

theorem Keeps.refl (s : State ε) : Keeps s s :=
  ⟨rfl, rfl, rfl⟩

variable {s s' : State ε}

theorem Keeps.trans {t u : State ε} (h : Keeps s t) (h' : Keeps t u) : Keeps s u :=
  ⟨h'.applied.trans h.applied, h'.pending.trans h.pending, h'.tapped.trans h.tapped⟩

theorem Keeps.size (h : Keeps s s') : s'.size = s.size := by
  simp [State.size, h.pending]

variable {k : State ε → State ε} {initial : Bool}

theorem keeps_announce (hk : ∀ s, Keeps s (k s)) (st : DeliveryState) (s : State ε) :
    Keeps s (s.announce st k) := by
  unfold State.announce
  split
  · exact Keeps.refl s
  · have hsaid : Keeps s { s with state := st } := ⟨rfl, rfl, rfl⟩
    exact hsaid.trans (hk _)

theorem keeps_begin (hk : ∀ s, Keeps s (k s)) (initial : Bool) (s : State ε) :
    Keeps s (s.begin initial k) := by
  have hstart : Keeps s { s with recovering := true } := ⟨rfl, rfl, rfl⟩
  refine (hstart.trans (keeps_announce hk .replaying _)).trans ?_
  unfold State.begin State.enterLoop
  split
  all_goals exact ⟨rfl, rfl, rfl⟩

theorem keeps_close (s : State ε) : Keeps s s.close := by
  unfold State.close
  split
  · exact Keeps.refl s
  · exact ⟨rfl, rfl, rfl⟩

theorem keeps_react (r : Reaction) : ∀ s : State ε, Keeps s (react r s) := by
  induction r with
  | quiet => exact Keeps.refl
  | close k ih => exact fun s => (keeps_close s).trans (ih _)
  | prime r k ihr ihk =>
    intro s
    refine Keeps.trans ?_ (ihk _)
    split
    · exact keeps_begin ihr true s
    · exact Keeps.refl s
  | consume c k ih =>
    intro s
    have hcall : Keeps s (s.consume c) := ⟨rfl, rfl, rfl⟩
    exact hcall.trans (ih _)

theorem keeps_setState (l : Listener) (st : DeliveryState) (s : State ε) : Keeps s (setState l st s) :=
  keeps_announce (keeps_react _) st s

theorem keeps_recover (l : Listener) (initial : Bool) (s : State ε) : Keeps s (recover l initial s) :=
  keeps_begin (keeps_react _) initial s

/-! ## Rounds -/

def round (l : Listener) (next : LogEvent) (s : State ε) : State ε :=
  { react (l.onApplied next) (s.apply next) with
    out := (react (l.onApplied next) (s.apply next)).out.push next }

theorem keeps_round (l : Listener) (next : LogEvent) (s : State ε) :
    Keeps (s.apply next) (round l next s) :=
  (keeps_react _ _).trans ⟨rfl, rfl, rfl⟩

theorem drain_none (l : Listener) (n : Nat) (h : s.pending.lookup (s.applied + 1) = none) :
    drain l n s = s := by
  cases n with
  | zero => rfl
  | succ n => simp only [drain, h]

theorem drain_some {next : LogEvent} (l : Listener) (n : Nat)
    (h : s.pending.lookup (s.applied + 1) = some next) :
    drain l (n + 1) s = drain l n (round l next s) := by
  simp only [drain, h]
  rfl

/-! ## Keys

A fact is pending under its own sequence; so each round of `drainContiguous` takes one out. -/

def State.Keyed (s : State ε) : Prop :=
  ∀ k ev, s.pending.lookup k = some ev → k = ev.sequence

theorem State.Keyed.of_keeps (h : s.Keyed) (hk : Keeps s s') : s'.Keyed := by
  intro k ev hlookup
  rw [hk.pending] at hlookup
  exact h k ev hlookup

theorem State.Keyed.put (h : s.Keyed) (ev : LogEvent) : (s.put ev).Keyed := by
  intro k ev' hlookup
  simp only [State.put] at hlookup
  by_cases hkey : k = ev.sequence
  · rw [hkey, Finmap.lookup_insert] at hlookup
    cases hlookup
    exact hkey
  · rw [Finmap.lookup_insert_of_ne _ hkey] at hlookup
    exact h k ev' hlookup

theorem State.Keyed.apply (h : s.Keyed) (next : LogEvent) : (s.apply next).Keyed := by
  intro k ev hlookup
  simp only [State.apply] at hlookup
  by_cases hkey : k = next.sequence
  · rw [hkey, Finmap.lookup_erase] at hlookup
    cases hlookup
  · rw [Finmap.lookup_erase_ne hkey] at hlookup
    exact h k ev hlookup

theorem size_erase {k : Int} {ev : LogEvent} (h : s.pending.lookup k = some ev) :
    (s.pending.erase k).keys.card + 1 = s.size := by
  have hmem : k ∈ s.pending.keys := Finmap.mem_keys.2 (Finmap.mem_of_lookup_eq_some h)
  rw [Finmap.keys_erase]
  exact Finset.card_erase_add_one hmem

def State.Drained (s : State ε) : Prop :=
  s.pending.lookup (s.applied + 1) = none

theorem State.Drained.of_keeps (h : s.Drained) (hk : Keeps s s') : s'.Drained := by
  unfold State.Drained
  rw [hk.pending, hk.applied]
  exact h

theorem drained_drain (l : Listener) (n : Nat) :
    ∀ {s : State ε}, s.Keyed → s.size ≤ n → (drain l n s).Drained := by
  induction n with
  | zero =>
    intro s _ hsize
    have hempty : s.pending.keys = ∅ := Finset.card_eq_zero.1 (Nat.le_zero.1 hsize)
    refine Finmap.lookup_eq_none.2 fun hmem => ?_
    have hkey : s.applied + 1 ∈ s.pending.keys := Finmap.mem_keys.2 hmem
    simp [hempty] at hkey
  | succ n ih =>
    intro s h hsize
    cases hnext : s.pending.lookup (s.applied + 1) with
    | none =>
      rw [drain_none l _ hnext]
      exact hnext
    | some next =>
      rw [drain_some l n hnext]
      refine ih ((h.apply next).of_keeps (keeps_round l next s)) ?_
      have hkey : s.applied + 1 = next.sequence := h _ _ hnext
      have hless := size_erase (hkey ▸ hnext)
      have hsame := (keeps_round l next s).size
      simp only [State.size, State.apply] at hsame hless hsize ⊢
      omega

theorem drainContiguous_of_drained (l : Listener) (h : s.Drained) : drainContiguous l s = s :=
  drain_none l _ h

/-! ## Loops -/

structure Regular (m : Option Recovery) (s : State ε) : Prop where
  keyed : s.Keyed
  loops : s.loops.length + m.toList.length = s.recovering.toNat

section Regular

variable {m : Option Recovery} {r : Recovery} {s : State ε}

theorem Regular.running (h : Regular (some r) s) : s.recovering = true ∧ s.loops = [] := by
  have hcount := h.loops
  cases hrec : s.recovering with
  | true => exact ⟨rfl, by simpa [hrec] using hcount⟩
  | false => simp [hrec] at hcount

theorem Regular.resting (h : Regular m s) (hrec : s.recovering = false) : m = none ∧ s.loops = [] := by
  have hcount := h.loops
  cases m with
  | none => exact ⟨rfl, by simpa [hrec] using hcount⟩
  | some r => simp [hrec] at hcount

theorem recovering_of_idle (h : s.idle = true) : s.recovering = false ∧ s.state ≠ .failed := by
  have hguard : (s.recovering = false ∧ s.closed = false) ∧ s.state ≠ .failed := by
    simpa [State.idle] using h
  exact ⟨hguard.1.1, hguard.2⟩

end Regular

/-! ## The rule -/

/-- A property of the updates of a delivery.  `ok` is what is known of the facts that arrive. -/
structure Outline (ok : LogEvent → Prop) (Q : Option Recovery → State ε → Prop) : Prop where
  close : ∀ {m s}, Q m s → Q m s.close
  out : ∀ {m s out}, Q m s → (s.out.IsQueue → out.IsQueue) → Q m { s with out := out }
  put : ∀ {m s ev}, Q m s → ok ev → s.closed = false → s.applied < ev.sequence → Q m (s.put ev)
  apply : ∀ {m s next}, Q m s → s.pending.lookup (s.applied + 1) = some next →
    next.sequence = s.applied + 1 → Q m (s.apply next)
  start : ∀ {s initial}, Q none s → s.recovering = false → s.loops = [] → s.state ≠ .failed →
    Q (some ⟨0, initial, .item (s.applied + 1)⟩) { s with recovering := true, state := .replaying }
  suspend : ∀ {r s}, Q (some r) s → s.loops = [] → Q none (s.suspend r)
  wake : ∀ {r s}, Q none s → s.loops = [r] → Q (some r) { s with loops := [] }
  dropped : ∀ {r s}, Q (some r) s → s.closed = true → Q none { s with recovering := false }
  degraded : ∀ {r s}, Q (some r) s → Q (some r) { s with state := .degraded }
  live : ∀ {s}, Q none s → s.recovering = false → s.loops = [] → s.closed = false → s.state ≠ .failed →
    s.size = 0 → Q none { s with state := .live }
  leave : ∀ {attempt needPass fromSequence s}, Q (some ⟨attempt, needPass, .item fromSequence⟩) s →
    s.closed = true → Q (some ⟨attempt, needPass, .leaving fromSequence⟩) s

structure Holds (Q : Option Recovery → State ε → Prop) (m : Option Recovery) (s : State ε) : Prop where
  regular : Regular m s
  prop : Q m s

section Rule

variable {ok : LogEvent → Prop} {Q : Option Recovery → State ε → Prop} (o : Outline ok Q)
variable {m : Option Recovery} {r : Recovery} {s : State ε}
include o

theorem Holds.close (h : Holds Q m s) : Holds Q m s.close := by
  refine ⟨⟨h.regular.keyed.of_keeps (keeps_close s), ?_⟩, o.close h.prop⟩
  unfold State.close
  split
  all_goals exact h.regular.loops

theorem Holds.out (h : Holds Q m s) {out : Mailbox LogEvent (DeliveryFailedError ε)}
    (hout : s.out.IsQueue → out.IsQueue) : Holds Q m { s with out := out } :=
  ⟨⟨h.regular.keyed, h.regular.loops⟩, o.out h.prop hout⟩

theorem Holds.suspend (h : Holds Q (some r) s) : Holds Q none (s.suspend r) := by
  rcases h.regular.running with ⟨hrec, hloops⟩
  exact ⟨⟨h.regular.keyed, by simp [State.suspend, hrec, hloops]⟩, o.suspend h.prop hloops⟩

theorem Holds.dropped (h : Holds Q (some r) s) (hclosed : s.closed = true) :
    Holds Q none { s with recovering := false } :=
  ⟨⟨h.regular.keyed, by simp [h.regular.running.2]⟩, o.dropped h.prop hclosed⟩

theorem Holds.start (h : Holds Q none s) (hrec : s.recovering = false) (hstate : s.state ≠ .failed)
    (initial : Bool) : Holds Q (some ⟨0, initial, .item (s.applied + 1)⟩)
      { s with recovering := true, state := .replaying } := by
  have hloops := (h.regular.resting hrec).2
  exact ⟨⟨h.regular.keyed, by simp [hloops]⟩, o.start h.prop hrec hloops hstate⟩

theorem Holds.begin {k : State ε → State ε} {initial : Bool}
    (h : Holds Q (some ⟨0, initial, .item (s.applied + 1)⟩)
      { s with recovering := true, state := .replaying })
    (hk : ∀ {r s}, Holds Q (some r) s → Holds Q (some r) (k s)) (hkeeps : ∀ s, Keeps s (k s)) :
    Holds Q none (s.begin initial k) := by
  have hsaid : ∀ t : State ε, Holds Q (some ⟨0, initial, .item (s.applied + 1)⟩) t →
      t.applied = s.applied → Holds Q none (t.enterLoop initial) := by
    intro t ht happlied
    unfold State.enterLoop
    split
    · next hclosed => exact ht.dropped o hclosed
    · rw [happlied]
      exact ht.suspend o
  unfold State.begin State.announce
  split
  · next hstate =>
      have hsame : ({ s with recovering := true } : State ε) =
          { s with recovering := true, state := .replaying } := by
        rw [← hstate]
      rw [hsame]
      exact hsaid _ h rfl
  · exact hsaid _ (hk h) (hkeeps _).applied

theorem Holds.react (a : Reaction) :
    ∀ {m : Option Recovery} {s : State ε}, Holds Q m s → Holds Q m (react a s) := by
  induction a with
  | quiet => exact fun h => h
  | close k ih => exact fun h => ih (h.close o)
  | prime a k iha ihk =>
    intro m s h
    refine ihk ?_
    split
    · next hidle =>
        rcases recovering_of_idle hidle with ⟨hrec, hstate⟩
        obtain ⟨rfl, -⟩ := h.regular.resting hrec
        exact (h.start o hrec hstate true).begin o iha (keeps_react a)
    · exact h
  | consume c k ih =>
    intro m s h
    refine ih (h.out o fun hqueue => ?_)
    cases hcall : s.out.call c with
    | none => exact hqueue
    | some out => exact hqueue.call hcall

theorem Holds.announce {st : DeliveryState} (h : Holds Q m { s with state := st }) (l : Listener) :
    Holds Q m (setState l st s) := by
  unfold setState State.announce
  split
  · next hstate =>
      subst hstate
      exact h
  · exact h.react o _

theorem Holds.recover (h : Holds Q none s) (hrec : s.recovering = false) (hstate : s.state ≠ .failed)
    (l : Listener) (initial : Bool) : Holds Q none (recover l initial s) :=
  (h.start o hrec hstate initial).begin o (Holds.react o _) (keeps_react _)

theorem Holds.drain (l : Listener) (n : Nat) :
    ∀ {s : State ε}, Holds Q m s → Holds Q m (drain l n s) := by
  induction n with
  | zero => exact fun h => h
  | succ n ih =>
    intro s h
    cases hnext : s.pending.lookup (s.applied + 1) with
    | none =>
      rw [drain_none l _ hnext]
      exact h
    | some next =>
      rw [drain_some l n hnext]
      have hkey : next.sequence = s.applied + 1 := (h.regular.keyed _ _ hnext).symm
      have happly : Holds Q m (s.apply next) :=
        ⟨⟨h.regular.keyed.apply next, h.regular.loops⟩, o.apply h.prop hnext hkey⟩
      exact ih ((happly.react o _).out o fun hqueue => hqueue.push next)

variable {ev : LogEvent} {fromSequence : Int} {backoff : List Nat}

theorem Holds.putDrained (h : Holds Q m s) (hok : ok ev) (hclosed : s.closed = false)
    (hnew : s.applied < ev.sequence) (l : Listener) : Holds Q m (drainContiguous l (s.put ev)) := by
  have hput : Holds Q m (s.put ev) :=
    ⟨⟨h.regular.keyed.put ev, h.regular.loops⟩, o.put h.prop hok hclosed hnew⟩
  exact hput.drain o l _

theorem Holds.wake (h : Holds Q none s) {i : Nat} {t : State ε} (hwake : s.wake i = some (r, t)) :
    s.loops = [r] ∧ t = { s with loops := [] } ∧ Holds Q (some r) t := by
  rcases Option.map_eq_some_iff.1 hwake with ⟨r', hr, hp⟩
  cases hp
  have hcount : s.loops.length = s.recovering.toNat := by simpa using h.regular.loops
  have hone : s.loops = [r] := by
    cases hloops : s.loops with
    | nil => simp [hloops] at hr
    | cons r' rest =>
      have hle := Bool.toNat_le s.recovering
      rw [← hcount, hloops, List.length_cons] at hle
      obtain rfl : rest = [] := List.eq_nil_of_length_eq_zero (by omega)
      cases i with
      | zero => simpa [hloops] using hr
      | succ i => simp [hloops] at hr
  have hi : i = 0 := by
    rw [hone] at hr
    cases i with
    | zero => rfl
    | succ i => simp at hr
  subst hi
  have hrest : s.loops.eraseIdx 0 = [] := by simp [hone]
  rw [hrest]
  refine ⟨hone, rfl, ⟨h.regular.keyed, ?_⟩, o.wake h.prop hone⟩
  rw [hone] at hcount
  simpa using hcount

/-! ### Turns -/

theorem Holds.afterLoop (h : Holds Q none { s with recovering := false }) (hdrained : s.Drained)
    (l : Listener) : Holds Q none (afterLoop l s) := by
  have hidle : ({ s with recovering := false } : State ε).Drained := hdrained
  unfold Delivery.afterLoop
  simp only [drainContiguous_of_drained l hidle]
  split
  · exact h
  · next hguard =>
      have hopen : s.closed = false ∧ s.state ≠ .failed := by simpa using hguard
      split
      · exact h.recover o rfl hopen.2 l false
      · next hsize =>
          have hempty : s.size = 0 := Nat.eq_zero_of_not_pos hsize
          have hlive : Holds Q none { s with recovering := false, state := .live } :=
            ⟨⟨h.regular.keyed, h.regular.loops⟩,
              o.live h.prop rfl (h.regular.resting rfl).2 hopen.1 hopen.2 hempty⟩
          exact hlive.announce o l

variable {attempt : Nat} {needPass : Bool}

theorem Holds.nextPass
    (hpass : s.closed = false → Holds Q (some ⟨attempt, needPass, .item (s.applied + 1)⟩) s)
    (hback : Holds Q none { s with recovering := false }) (hdrained : s.Drained) (l : Listener) :
    Holds Q none (nextPass l attempt needPass s) := by
  unfold Delivery.nextPass
  split
  · next hguard =>
      have hopen : s.closed = false := by
        simp only [Bool.and_eq_true, Bool.not_eq_true'] at hguard
        exact hguard.2
      exact (hpass hopen).suspend o
  · exact hback.afterLoop o hdrained l

theorem Holds.fail (h : Holds Q none { s with recovering := false, state := .failed }) (l : Listener)
    (err : DeliveryFailedError ε) : Holds Q none (fail l err s) :=
  (h.announce o l).out o fun hqueue => hqueue.error err

theorem Holds.passItem (h : Holds Q (some ⟨attempt, needPass, .item fromSequence⟩) s) (hok : ok ev)
    (l : Listener) : Holds Q none (passItem l attempt needPass fromSequence ev s) := by
  unfold Delivery.passItem
  split
  · next hclosed =>
      have hleave : Holds Q (some ⟨attempt, needPass, .leaving fromSequence⟩) s :=
        ⟨⟨h.regular.keyed, h.regular.loops⟩, o.leave h.prop hclosed⟩
      exact hleave.suspend o
  · next hclosed =>
      split
      · exact h.suspend o
      · next hnew => exact (h.putDrained o hok (by simpa using hclosed) (by simpa using hnew) l).suspend o

theorem Holds.passEnd (hdone : s.size = 0 → Holds Q none { s with recovering := false })
    (hfail : s.size ≠ 0 → backoff.length ≤ attempt + 1 →
      Holds Q none { s with recovering := false, state := .failed })
    (hretry : s.size ≠ 0 → attempt + 1 < backoff.length → Holds Q (some ⟨attempt, false, .backoff⟩) s)
    (hdrained : s.Drained) (l : Listener) : Holds Q none (passEnd backoff l attempt s) := by
  unfold Delivery.passEnd
  split
  · next hsize => exact (hdone hsize).afterLoop o hdrained l
  · next hsize =>
      split
      · next hlimit => exact (hfail hsize hlimit).fail o l _
      · next hlimit =>
          have hagain := hretry hsize (Nat.lt_of_not_le hlimit)
          have hsaid : Holds Q (some ⟨attempt, false, .backoff⟩) { s with state := .degraded } :=
            ⟨⟨hagain.regular.keyed, hagain.regular.loops⟩, o.degraded hagain.prop⟩
          exact (hsaid.announce o l).suspend o

theorem Holds.passThrow {err : ε} (h : Holds Q (some ⟨attempt, needPass, .backoff⟩) s)
    (hfail : backoff.length ≤ attempt + 1 → ∀ {t : State ε}, Holds Q (some ⟨attempt, needPass, .backoff⟩) t →
      Holds Q none { t with recovering := false, state := .failed }) (l : Listener) :
    Holds Q none (passThrow backoff l attempt needPass fromSequence err s) := by
  have hsaid : Holds Q (some ⟨attempt, needPass, .backoff⟩) { s with state := .degraded } :=
    ⟨⟨h.regular.keyed, h.regular.loops⟩, o.degraded h.prop⟩
  unfold Delivery.passThrow
  split
  · next hlimit => exact (hfail hlimit (hsaid.announce o l)).fail o l _
  · exact (hsaid.announce o l).suspend o

theorem Holds.prime (h : Holds Q none s) (l : Listener) : Holds Q none (prime l s) := by
  unfold Delivery.prime
  split
  · next hidle => exact h.recover o (recovering_of_idle hidle).1 (recovering_of_idle hidle).2 l true
  · exact h

end Rule

theorem outline_unfailed : Outline (fun _ => True) fun _ (s : State ε) => s.state ≠ .failed where
  close := by
    intro m s h
    unfold State.close
    split
    · exact h
    · exact h
  out := fun h _ => h
  put := fun h _ _ _ => h
  apply := fun h _ _ => h
  start := fun _ _ _ _ => by simp
  suspend := fun h _ => h
  wake := fun h _ => h
  dropped := fun h _ => h
  degraded := fun _ => by simp
  live := fun _ _ _ _ _ _ => by simp
  leave := fun h _ => h

section Offers

variable {ok : LogEvent → Prop} {Q : Option Recovery → State ε → Prop} {s : State ε}

theorem Holds.offer (o : Outline ok Q) {ev : LogEvent} (h : Holds Q none s) (hok : ok ev) (l : Listener) :
    Holds Q none (offer l ev s) := by
  unfold Delivery.offer
  split
  · exact h
  · next hguard =>
      have hopen : s.closed = false ∧ s.state ≠ .failed := by simpa using hguard
      split
      · exact h
      · next hnew =>
          have hlt : s.applied < ev.sequence := by simpa using hnew
          have hput := h.putDrained o hok hopen.1 hlt l
          have hunfailed : Holds (fun _ s => s.state ≠ .failed) none s := ⟨h.regular, hopen.2⟩
          have hstate := (hunfailed.putDrained outline_unfailed trivial hopen.1 hlt l).prop
          dsimp only
          split
          · next hgap => exact hput.recover o hgap.2 hstate l false
          · exact hput

end Offers

/-! ## No fact waits to be applied -/

section Drained

variable {s : State ε} (l : Listener)

theorem drained_putDrained (h : s.Keyed) (ev : LogEvent) : (drainContiguous l (s.put ev)).Drained :=
  drained_drain l _ (h.put ev) le_rfl

theorem keeps_afterLoop (h : s.Drained) : Keeps s (afterLoop l s) := by
  have hback : Keeps s { s with recovering := false } := ⟨rfl, rfl, rfl⟩
  have hidle : ({ s with recovering := false } : State ε).Drained := h
  refine hback.trans ?_
  unfold Delivery.afterLoop
  simp only [drainContiguous_of_drained l hidle]
  split
  · exact Keeps.refl _
  · split
    · exact keeps_recover l false _
    · exact keeps_setState l .live _

theorem keeps_nextPass (h : s.Drained) (attempt : Nat) (needPass : Bool) :
    Keeps s (nextPass l attempt needPass s) := by
  unfold Delivery.nextPass
  split
  · exact ⟨rfl, rfl, rfl⟩
  · exact keeps_afterLoop l h

theorem keeps_fail (err : DeliveryFailedError ε) : Keeps s (fail l err s) := by
  have hback : Keeps s { s with recovering := false } := ⟨rfl, rfl, rfl⟩
  have hsaid := hback.trans (keeps_setState l .failed _)
  exact hsaid.trans ⟨rfl, rfl, rfl⟩

theorem keeps_passEnd (h : s.Drained) (backoff : List Nat) (attempt : Nat) :
    Keeps s (passEnd backoff l attempt s) := by
  unfold Delivery.passEnd
  split
  · exact keeps_afterLoop l h
  · split
    · exact keeps_fail l _
    · exact (keeps_setState l .degraded s).trans ⟨rfl, rfl, rfl⟩

theorem keeps_passThrow (backoff : List Nat) (attempt : Nat) (needPass : Bool) (fromSequence : Int)
    (err : ε) : Keeps s (passThrow backoff l attempt needPass fromSequence err s) := by
  have hsaid := keeps_setState l .degraded s
  unfold Delivery.passThrow
  split
  · exact hsaid.trans (keeps_fail l _)
  · exact hsaid.trans ⟨rfl, rfl, rfl⟩

theorem keeps_prime : Keeps s (prime l s) := by
  unfold Delivery.prime
  split
  · exact keeps_recover l true s
  · exact Keeps.refl s

theorem drained_offer (h : s.Drained) (hkeyed : s.Keyed) (ev : LogEvent) : (offer l ev s).Drained := by
  unfold Delivery.offer
  split
  · exact h
  · split
    · exact h
    · have hput := drained_putDrained l hkeyed ev
      dsimp only
      split
      · exact hput.of_keeps (keeps_recover l false _)
      · exact hput

theorem drained_passItem (h : s.Drained) (hkeyed : s.Keyed) (attempt : Nat) (needPass : Bool)
    (fromSequence : Int) (ev : LogEvent) : (passItem l attempt needPass fromSequence ev s).Drained := by
  unfold Delivery.passItem
  split
  · exact h
  · split
    · exact h
    · exact drained_putDrained l hkeyed ev

end Drained

/-! ## Turns of a run

Between two turns no fact waits to be applied.  A turn that goes on with a loop wakes the only one. -/

structure Settled (Q : Option Recovery → State ε → Prop) (s : State ε) : Prop where
  holds : Holds Q none s
  drained : s.Drained

structure Wakes (Q : Option Recovery → State ε → Prop) (s : State ε) (r : Recovery) (t : State ε) :
    Prop where
  loops : s.loops = [r]
  state : t = { s with loops := [] }
  holds : Holds Q (some r) t
  drained : t.Drained

def Event.Minor (ok : LogEvent → Prop) : Event ε → Prop
  | .offer _ ev | .item _ _ ev => ok ev
  | .prime _ | .close | .consume _ | .resume _ => True
  | .ended _ _ | .thrown _ _ _ | .waited _ _ => False

section Turns

variable {ok : LogEvent → Prop} {Q : Option Recovery → State ε → Prop} (o : Outline ok Q)
variable {backoff : List Nat} {s s' : State ε} (h : Settled Q s)
include o h

variable {i : Nat} {l : Listener}

theorem Settled.wake {r : Recovery} {t : State ε} (hwake : s.wake i = some (r, t)) :
    Wakes Q s r t := by
  rcases h.holds.wake o hwake with ⟨hloops, ht, hrun⟩
  refine ⟨hloops, ht, hrun, ?_⟩
  rw [ht]
  exact h.drained

theorem Settled.ended (hstep : step backoff s (.ended l i) = some s') :
    ∃ r t, s.loops[i]? = some r ∧ Wakes Q s r t ∧ r.awaits ≠ .backoff ∧ s' = passEnd backoff l r.attempt t := by
  rcases Option.bind_eq_some_iff.1 hstep with ⟨⟨⟨attempt, needPass, awaits⟩, t⟩, hwake, hgo⟩
  have hwakes := h.wake o hwake
  rcases Option.map_eq_some_iff.1 hwake with ⟨r, hr, hrt⟩
  cases hrt
  cases awaits with
  | backoff => cases hgo
  | item | leaving => exact ⟨_, _, hr, hwakes, by simp, (Option.some.inj hgo).symm⟩

theorem Settled.thrown {err : ε} (hstep : step backoff s (.thrown l i err) = some s') :
    ∃ r t fromSequence, s.loops[i]? = some r ∧ Wakes Q s r t ∧ r.awaits ≠ .backoff ∧
      s' = passThrow backoff l r.attempt r.needPass fromSequence err t := by
  rcases Option.bind_eq_some_iff.1 hstep with ⟨⟨⟨attempt, needPass, awaits⟩, t⟩, hwake, hgo⟩
  have hwakes := h.wake o hwake
  rcases Option.map_eq_some_iff.1 hwake with ⟨r, hr, hrt⟩
  cases hrt
  cases awaits with
  | backoff => cases hgo
  | item | leaving => exact ⟨_, _, _, hr, hwakes, by simp, (Option.some.inj hgo).symm⟩

theorem Settled.waited (hstep : step backoff s (.waited l i) = some s') :
    ∃ r t, Wakes Q s r t ∧ r.awaits = .backoff ∧ s' = nextPass l (r.attempt + 1) r.needPass t := by
  rcases Option.bind_eq_some_iff.1 hstep with ⟨⟨⟨attempt, needPass, awaits⟩, t⟩, hwake, hgo⟩
  cases awaits with
  | backoff => exact ⟨_, _, h.wake o hwake, rfl, (Option.some.inj hgo).symm⟩
  | item | leaving => cases hgo

theorem Settled.item {ev : LogEvent} (hstep : step backoff s (.item l i ev) = some s') :
    ∃ attempt needPass fromSequence t, Wakes Q s ⟨attempt, needPass, .item fromSequence⟩ t ∧
      s' = passItem l attempt needPass fromSequence ev t := by
  rcases Option.bind_eq_some_iff.1 hstep with ⟨⟨⟨attempt, needPass, awaits⟩, t⟩, hwake, hgo⟩
  cases awaits with
  | item => exact ⟨_, _, _, _, h.wake o hwake, (Option.some.inj hgo).symm⟩
  | backoff | leaving => cases hgo

theorem Settled.minor {e : Event ε} (hstep : step backoff s e = some s') (he : e.Minor ok) :
    Settled Q s' := by
  cases e with
  | offer l ev =>
    cases hstep
    exact ⟨h.holds.offer o he l, drained_offer l h.drained h.holds.regular.keyed ev⟩
  | prime l =>
    cases hstep
    exact ⟨h.holds.prime o l, h.drained.of_keeps (keeps_prime l)⟩
  | close =>
    cases hstep
    exact ⟨h.holds.close o, h.drained.of_keeps (keeps_close s)⟩
  | item l i ev =>
    rcases h.item o hstep with ⟨attempt, needPass, fromSequence, t, hwakes, rfl⟩
    exact ⟨hwakes.holds.passItem o he l,
      drained_passItem l hwakes.drained hwakes.holds.regular.keyed _ _ _ _⟩
  | consume c =>
    rcases Option.map_eq_some_iff.1 hstep with ⟨out, hcall, rfl⟩
    exact ⟨h.holds.out o fun hqueue => hqueue.call hcall, h.drained⟩
  | resume g =>
    rcases Option.map_eq_some_iff.1 hstep with ⟨out, hresume, rfl⟩
    exact ⟨h.holds.out o fun hqueue => hqueue.resume hresume, h.drained⟩
  | ended | thrown | waited => exact he.elim

end Turns

theorem Wakes.regular {Q : Option Recovery → State ε → Prop} {t : State ε} {r : Recovery}
    (h : Wakes Q s r t) : Regular none ({ t with recovering := false } : State ε) :=
  ⟨h.holds.regular.keyed, by simp [h.holds.regular.running.2]⟩

end Delivery
end RelayPoint.Sdk
