import RelayPoint.Concurrency.Trace
import RelayPoint.Projector.Fence

/-!
# FenceRuns — the fence between any number of callers

The data loop calls `begin`, the renewal loop `pause`, `resume` and `fail`, and the parent context may
be cancelled at any time.  The methods hold the mutex of the fence, except that `begin` gives it up
while it waits on a wake-up channel; so a call of `begin` is a loop of two kinds of steps, a pass
under the mutex and an awakening.  Any number of calls may be under way.

Beside the fence a state has the history that the statements are about: which channels were closed,
one entry for each `close`, and which errors `fail` was called with.  Errors are never nil: the
renewal loop calls `fail` only with the error of a failed renewal.
-/

namespace RelayPoint.Projector

open Concurrency

variable {ε : Type}

/-! ## Methods that only read -/

inductive ExitErr (ε : Type) where
  | leaseLost (err : ε)
  | parent
  | paused
  deriving DecidableEq

namespace Fence

def exitErr (f : Fence ε) : Option (ExitErr ε) :=
  match f.lost with
  | some err => some (.leaseLost err)
  | none => if f.parentDone then some .parent else none

def health (f : Fence ε) : Option (ExitErr ε) :=
  match f.lost with
  | some err => some (.leaseLost err)
  | none => if f.parentDone then some .parent else if f.paused then some .paused else none

def Live (f : Fence ε) (context : Nat) : Prop :=
  f.parentDone = false ∧ f.contexts[context]? = some false

def closedByResume (f : Fence ε) : List Nat :=
  if f.paused = false ∨ f.lost.isSome then [] else [f.wakeup]

def closedByFail (f : Fence ε) : List Nat :=
  if f.lost.isSome then [] else [f.wakeup]

/-! ## What the methods do -/

def SameWaiting (f g : Fence ε) : Prop :=
  g.paused = f.paused ∧ g.lost = f.lost ∧ g.channels = f.channels ∧ g.wakeup = f.wakeup

theorem begin_cases (f : Fence ε) :
    (f.begin = (.refused, f) ∧ (f.lost.isSome ∨ f.parentDone = true)) ∨
    (f.begin.1 = .issued f.contexts.length ∧ f.lost = none ∧ f.paused = false ∧
      f.SameWaiting f.begin.2 ∧ f.begin.2.contexts.length = f.contexts.length + 1) ∨
    (f.begin = (.blocked f.wakeup, f) ∧ f.lost = none ∧ f.paused = true) := by
  unfold begin
  split
  · next hstop => exact .inl ⟨rfl, by simpa using hstop⟩
  · next hgo =>
      have hlost : f.lost = none := by simpa using fun h => hgo (.inl h)
      split
      · next hpaused =>
          exact .inr (.inl ⟨rfl, hlost, hpaused, ⟨rfl, rfl, rfl, rfl⟩, by
            simp [issue, f.length_cancelled]⟩)
      · next hpaused => exact .inr (.inr ⟨rfl, hlost, by simpa using hpaused⟩)

theorem pause_cases (f : Fence ε) :
    (f.pause = f ∧ (f.paused = true ∨ f.lost.isSome)) ∨
    (f.paused = false ∧ f.lost = none ∧ f.pause.paused = true ∧ f.pause.lost = none ∧
      f.pause.channels = f.channels ∧ f.pause.wakeup = f.wakeup) := by
  unfold pause
  split
  · next h => exact .inl ⟨rfl, h⟩
  · next h =>
      have hlost : f.lost = none := by simpa using fun hl => h (.inr hl)
      exact .inr ⟨by simpa using fun hp => h (.inl hp), hlost, rfl, hlost, rfl, rfl⟩

theorem resume_cases (f : Fence ε) :
    (f.resume = f ∧ f.closedByResume = []) ∨
    (f.paused = true ∧ f.lost = none ∧ f.closedByResume = [f.wakeup] ∧ f.resume.lost = none ∧
      f.resume.channels = f.channels.set f.wakeup true ++ [false] ∧
      f.resume.wakeup = f.channels.length) := by
  unfold resume closedByResume
  split
  · next h => exact .inl ⟨rfl, rfl⟩
  · next h =>
      have hlost : f.lost = none := by simpa using fun hl => h (.inr hl)
      exact .inr ⟨by simpa using fun hp => h (.inl hp), hlost, rfl, hlost, rfl, rfl⟩

theorem fail_cases (f : Fence ε) (err : ε) :
    (f.fail err = f ∧ f.lost.isSome ∧ f.closedByFail = []) ∨
    (f.lost = none ∧ f.closedByFail = [f.wakeup] ∧ (f.fail err).lost = some err ∧
      (f.fail err).channels = f.channels.set f.wakeup true ++ [false] ∧
      (f.fail err).wakeup = f.channels.length) := by
  unfold fail closedByFail
  split
  · next h => exact .inl ⟨rfl, h, rfl⟩
  · next h => exact .inr ⟨by simpa using h, rfl, rfl, rfl, rfl⟩

theorem pause_of_lost {f : Fence ε} (h : f.lost.isSome) : f.pause = f :=
  if_pos (.inr h)

theorem resume_of_lost {f : Fence ε} (h : f.lost.isSome) : f.resume = f :=
  dif_pos (.inr h)

theorem begin_of_lost {f : Fence ε} (h : f.lost.isSome) : f.begin = (.refused, f) :=
  dif_pos (.inl h)

theorem length_contexts_pause (f : Fence ε) : f.pause.contexts.length = f.contexts.length := by
  unfold pause
  split
  · rfl
  · exact f.length_cancelled

theorem length_contexts_resume (f : Fence ε) : f.resume.contexts.length = f.contexts.length := by
  unfold resume
  split <;> rfl

theorem length_contexts_fail (f : Fence ε) (err : ε) :
    (f.fail err).contexts.length = f.contexts.length := by
  unfold fail
  split
  · rfl
  · exact f.length_cancelled

end Fence

/-! ## Runs -/

inductive Caller where
  | entering
  | waiting (wake : Nat)
  | returned (context : Option Nat)
  deriving DecidableEq

structure System (ε : Type) where
  fence : Fence ε
  callers : List Caller
  closed : List Nat
  failures : List ε

namespace System

inductive Event (ε : Type) where
  | call
  | pass (i : Nat)
  | awake (i : Nat)
  | pause
  | resume
  | fail (err : ε)
  | cancelParent

def new (parentDone : Bool) : System ε :=
  ⟨.new parentDone, [], [], []⟩

def after : Begin → Caller
  | .refused => .returned none
  | .issued context => .returned (some context)
  | .blocked wake => .waiting wake

def ready (f : Fence ε) (wake : Nat) : Bool :=
  f.parentDone || f.channels[wake]? == some true

def step (s : System ε) : Event ε → Option (System ε)
  | .call => some { s with callers := s.callers ++ [.entering] }
  | .pass i =>
    match s.callers[i]? with
    | some .entering =>
      some { s with fence := s.fence.begin.2, callers := s.callers.set i (after s.fence.begin.1) }
    | some (.waiting _) | some (.returned _) | none => none
  | .awake i =>
    match s.callers[i]? with
    | some (.waiting wake) =>
      if ready s.fence wake then some { s with callers := s.callers.set i .entering } else none
    | some .entering | some (.returned _) | none => none
  | .pause => some { s with fence := s.fence.pause }
  | .resume =>
    some { s with fence := s.fence.resume, closed := s.closed ++ s.fence.closedByResume }
  | .fail err =>
    some { s with
      fence := s.fence.fail err
      closed := s.closed ++ s.fence.closedByFail
      failures := s.failures ++ [err] }
  | .cancelParent => some { s with fence := s.fence.cancelParent }

abbrev Comes (parentDone : Bool) : System ε → Prop :=
  Trace.Reaches step (fun _ _ => True) (new parentDone)

structure Inv (s : System ε) : Prop where
  wakeup : s.fence.channels[s.fence.wakeup]? = some false
  closed : ∀ w, w ∈ s.closed ↔ s.fence.channels[w]? = some true
  nodup : s.closed.Nodup
  waiting : ∀ (i w : Nat), s.callers[i]? = some (.waiting w) →
    s.fence.channels[w]? = some true ∨
      (w = s.fence.wakeup ∧ s.fence.paused = true ∧ s.fence.lost = none)
  lost : s.fence.lost = s.failures.head?
  issued : ∀ (i c : Nat), s.callers[i]? = some (.returned (some c)) →
    c < s.fence.contexts.length

theorem inv_new (parentDone : Bool) : (new parentDone : System ε).Inv where
  wakeup := rfl
  closed := by
    intro w
    cases w <;> simp [new, Fence.new]
  nodup := List.nodup_nil
  waiting := by simp [new]
  lost := rfl
  issued := by simp [new]

section Steps

variable {s s' : System ε}

theorem caller_set {i j : Nat} {caller caller' : Caller}
    (h : (s.callers.set i caller)[j]? = some caller') :
    (j = i ∧ caller' = caller) ∨ s.callers[j]? = some caller' := by
  by_cases hij : i = j
  · subst hij
    have hlt : i < s.callers.length := by
      simpa using (List.getElem?_eq_some_iff.1 h).1
    rw [List.getElem?_set_self hlt] at h
    exact .inl ⟨rfl, (Option.some.inj h).symm⟩
  · rw [List.getElem?_set_ne hij] at h
    exact .inr h

theorem Inv.call (h : s.Inv) : Inv { s with callers := s.callers ++ [.entering] } := by
  have hold : ∀ (i : Nat) (caller : Caller), caller ≠ .entering →
      (s.callers ++ [.entering])[i]? = some caller → s.callers[i]? = some caller := by
    intro i caller hne hi
    rcases Nat.lt_or_ge i s.callers.length with hlt | hge
    · rwa [List.getElem?_append_left hlt] at hi
    · rw [List.getElem?_append_right hge] at hi
      have hmem := List.mem_of_getElem? hi
      exact absurd (List.mem_singleton.1 hmem) hne
  exact ⟨h.wakeup, h.closed, h.nodup, fun i w hi => h.waiting i w (hold i _ (by simp) hi), h.lost,
    fun i c hi => h.issued i c (hold i _ (by simp) hi)⟩

theorem Inv.pass (h : s.Inv) (i : Nat) :
    Inv { s with fence := s.fence.begin.2, callers := s.callers.set i (after s.fence.begin.1) } := by
  rcases s.fence.begin_cases with ⟨hbegin, _⟩ | ⟨hissued, hlost, hpaused, hsame, hgrown⟩ |
    ⟨hbegin, hlost, hpaused⟩
  · -- nothing but the caller changes
    rw [hbegin]
    refine ⟨h.wakeup, h.closed, h.nodup, ?_, h.lost, ?_⟩
    · intro j w hj
      rcases caller_set hj with ⟨_, hcaller⟩ | hj
      · cases hcaller
      · exact h.waiting j w hj
    · intro j c hj
      rcases caller_set hj with ⟨_, hcaller⟩ | hj
      · cases hcaller
      · exact h.issued j c hj
  · -- a context is handed out; nobody starts to wait
    rcases hsame with ⟨hsp, hsl, hsc, hsw⟩
    refine ⟨by rw [hsc, hsw]; exact h.wakeup, fun w => by rw [hsc]; exact h.closed w, h.nodup, ?_,
      by rw [hsl]; exact h.lost, ?_⟩
    · intro j w hj
      rcases caller_set hj with ⟨_, hcaller⟩ | hj
      · rw [hissued] at hcaller
        cases hcaller
      · rw [hsc, hsw, hsp, hsl]
        exact h.waiting j w hj
    · intro j c hj
      rw [hgrown]
      rcases caller_set hj with ⟨_, hcaller⟩ | hj
      · rw [hissued] at hcaller
        cases hcaller
        exact Nat.lt_succ_self _
      · exact Nat.lt_succ_of_lt (h.issued j c hj)
  · -- the caller waits on the channel that it has read under the mutex
    rw [hbegin]
    refine ⟨h.wakeup, h.closed, h.nodup, ?_, h.lost, ?_⟩
    · intro j w hj
      rcases caller_set hj with ⟨_, hcaller⟩ | hj
      · cases hcaller
        exact .inr ⟨rfl, hpaused, hlost⟩
      · exact h.waiting j w hj
    · intro j c hj
      rcases caller_set hj with ⟨_, hcaller⟩ | hj
      · cases hcaller
      · exact h.issued j c hj

theorem Inv.awake (h : s.Inv) (i : Nat) : Inv { s with callers := s.callers.set i .entering } := by
  refine ⟨h.wakeup, h.closed, h.nodup, ?_, h.lost, ?_⟩
  · intro j w hj
    rcases caller_set hj with ⟨_, hcaller⟩ | hj
    · cases hcaller
    · exact h.waiting j w hj
  · intro j c hj
    rcases caller_set hj with ⟨_, hcaller⟩ | hj
    · cases hcaller
    · exact h.issued j c hj

theorem Inv.pause (h : s.Inv) : Inv { s with fence := s.fence.pause } := by
  rcases s.fence.pause_cases with ⟨hsame, _⟩ | ⟨hpaused, hlost, hp, hl, hc, hw⟩
  · rw [hsame]
    exact h
  · refine ⟨by rw [hc, hw]; exact h.wakeup, fun w => by rw [hc]; exact h.closed w, h.nodup, ?_,
      by rw [hl, ← hlost]; exact h.lost, ?_⟩
    · intro j w hj
      rw [hc, hw]
      exact (h.waiting j w hj).imp_right fun hopen => ⟨hopen.1, hp, hl⟩
    · intro j c hj
      rw [s.fence.length_contexts_pause]
      exact h.issued j c hj

theorem Inv.wake (h : s.Inv) {f : Fence ε} {failures : List ε}
    (hchannels : f.channels = s.fence.channels.set s.fence.wakeup true ++ [false])
    (hwakeup : f.wakeup = s.fence.channels.length) (hlost : f.lost = failures.head?)
    (hcontexts : f.contexts.length = s.fence.contexts.length) :
    Inv { s with fence := f, closed := s.closed ++ [s.fence.wakeup], failures := failures } := by
  have hlt : s.fence.wakeup < s.fence.channels.length := (List.getElem?_eq_some_iff.1 h.wakeup).1
  -- a channel is closed now if it was, or if it is the one that was just closed
  have hnow : ∀ w, f.channels[w]? = some true ↔
      s.fence.channels[w]? = some true ∨ w = s.fence.wakeup := by
    intro w
    rw [hchannels]
    rcases Nat.lt_or_ge w s.fence.channels.length with hw | hw
    · rw [List.getElem?_append_left (by simpa using hw)]
      by_cases heq : s.fence.wakeup = w
      · subst heq
        simp [hlt]
      · rw [List.getElem?_set_ne heq]
        exact ⟨.inl, fun hor => hor.elim id fun hw => absurd hw.symm heq⟩
    · rw [List.getElem?_append_right (by simpa using hw), List.getElem?_eq_none hw]
      constructor
      · intro hnew
        have hmem := List.mem_of_getElem? hnew
        simp at hmem
      · rintro (hold | rfl)
        · cases hold
        · omega
  have hwas : s.fence.wakeup ∉ s.closed := by
    rw [h.closed, h.wakeup]
    simp
  refine ⟨?_, ?_, ?_, ?_, hlost, ?_⟩
  · rw [hchannels, hwakeup]
    simp
  · intro w
    rw [hnow, List.mem_append, List.mem_singleton, h.closed]
  · exact List.nodup_append.2 ⟨h.nodup, by simp, fun w hw v hv heq =>
      hwas (List.mem_singleton.1 hv ▸ heq ▸ hw)⟩
  · intro i w hi
    left
    exact (hnow w).2 ((h.waiting i w hi).imp_right fun hopen => hopen.1)
  · intro i c hi
    rw [hcontexts]
    exact h.issued i c hi

theorem Inv.resume (h : s.Inv) :
    Inv { s with fence := s.fence.resume, closed := s.closed ++ s.fence.closedByResume } := by
  rcases s.fence.resume_cases with ⟨hsame, hnone⟩ | ⟨_, hlost, hclosed, hl, hchannels, hwakeup⟩
  · rw [hsame, hnone, List.append_nil]
    exact h
  · rw [hclosed]
    exact h.wake hchannels hwakeup (by rw [hl, ← hlost]; exact h.lost)
      s.fence.length_contexts_resume

theorem Inv.fail (h : s.Inv) (err : ε) :
    Inv { s with fence := s.fence.fail err, closed := s.closed ++ s.fence.closedByFail,
                 failures := s.failures ++ [err] } := by
  rcases s.fence.fail_cases err with ⟨hsame, hsome, hnone⟩ | ⟨hlost, hclosed, hl, hchannels, hwakeup⟩
  · -- the first error stands
    rw [hsame, hnone, List.append_nil]
    refine ⟨h.wakeup, h.closed, h.nodup, h.waiting, ?_, h.issued⟩
    have hfirst := h.lost
    cases hf : s.failures with
    | nil =>
      rw [hfirst, hf] at hsome
      cases hsome
    | cons first rest => simpa [hf] using hfirst
  · rw [hclosed]
    have hfirst : s.failures = [] := by simpa [hlost] using h.lost.symm
    exact h.wake hchannels hwakeup (by rw [hl, hfirst]; rfl) (s.fence.length_contexts_fail err)

theorem Inv.step (h : s.Inv) {e : Event ε} (hstep : s.step e = some s') : s'.Inv := by
  cases e with
  | call =>
    cases hstep
    exact h.call
  | pass i =>
    cases hi : s.callers[i]? with
    | none => simp [System.step, hi] at hstep
    | some caller =>
      cases caller with
      | entering =>
        simp only [System.step, hi] at hstep
        cases hstep
        exact h.pass i
      | waiting w | returned c => simp [System.step, hi] at hstep
  | awake i =>
    cases hi : s.callers[i]? with
    | none => simp [System.step, hi] at hstep
    | some caller =>
      cases caller with
      | entering | returned c => simp [System.step, hi] at hstep
      | waiting w =>
        simp only [System.step, hi] at hstep
        split at hstep
        · cases hstep
          exact h.awake i
        · cases hstep
  | pause =>
    cases hstep
    exact h.pause
  | resume =>
    cases hstep
    exact h.resume
  | fail err =>
    cases hstep
    exact h.fail err
  | cancelParent =>
    cases hstep
    exact ⟨h.wakeup, h.closed, h.nodup, h.waiting, h.lost, h.issued⟩

theorem inv_of_reaches {parentDone : Bool} (h : Comes parentDone s) : s.Inv :=
  h.invariant (inv_new parentDone) fun hinv _ hstep => hinv.step hstep

/-! ## What follows -/

theorem Inv.woken (h : s.Inv) {i w : Nat} (hi : s.callers[i]? = some (.waiting w)) :
    s.fence.resume.channels[w]? = some true ∧ ∀ err, (s.fence.fail err).channels[w]? = some true := by
  rcases h.waiting i w hi with hclosed | ⟨rfl, hpaused, hlost⟩
  · have hold := (h.closed w).2 hclosed
    exact ⟨(h.resume.closed w).1 (List.mem_append_left _ hold), fun err =>
      ((h.fail err).closed w).1 (List.mem_append_left _ hold)⟩
  · have hresume : s.fence.closedByResume = [s.fence.wakeup] := by
      simp [Fence.closedByResume, hpaused, hlost]
    have hfail : s.fence.closedByFail = [s.fence.wakeup] := by
      simp [Fence.closedByFail, hlost]
    exact ⟨(h.resume.closed _).1 (by simp [hresume]), fun err =>
      ((h.fail err).closed _).1 (by simp [hfail])⟩

theorem live_unique {f : Fence ε} {i j : Nat} (hi : f.Live i) (hj : f.Live j) : i = j := by
  have hcancel := f.held i hi.2
  rw [f.held j hj.2] at hcancel
  exact (Option.some.inj hcancel).symm

theorem Inv.refused (h : s.Inv) {first : ε} {rest : List ε} (hfail : s.failures = first :: rest) :
    (∀ i : Nat, s.callers[i]? = some .entering →
      s.step (.pass i) = some { s with callers := s.callers.set i (.returned none) }) ∧
    ∀ i w : Nat, s.callers[i]? = some (.waiting w) →
      s.step (.awake i) = some { s with callers := s.callers.set i .entering } := by
  have hlost : s.fence.lost = some first := by rw [h.lost, hfail]; rfl
  have hsome : s.fence.lost.isSome := by rw [hlost]; rfl
  constructor
  · intro i hi
    simp only [System.step, hi, Fence.begin_of_lost hsome, after]
  · intro i w hi
    have hclosed : s.fence.channels[w]? = some true := by
      rcases h.waiting i w hi with hclosed | ⟨_, _, hnone⟩
      · exact hclosed
      · rw [hlost] at hnone
        cases hnone
    have hready : ready s.fence w = true := by simp [ready, hclosed]
    simp only [System.step, hi, hready, if_true]

end Steps

end System

/-- The fence in every interleaving of its methods, of waiting calls of `begin` and of the parent's
cancellation: at most one context is live, and none while the fence is paused or lost; after a failure
`begin` returns nil, the first error is reported and `pause` and `resume` do nothing; whoever waits is
woken by the next `resume` or `fail`, and no channel is closed twice. -/
theorem fence_one_live_context {parentDone : Bool} {s : System ε} (h : System.Comes parentDone s) :
    (∀ i c : Nat, s.callers[i]? = some (.returned (some c)) → c < s.fence.contexts.length) ∧
    (∀ i j, s.fence.Live i → s.fence.Live j → i = j) ∧
    (s.fence.paused = true ∨ s.fence.lost.isSome → ∀ i, ¬ s.fence.Live i) ∧
    (∀ first rest, s.failures = first :: rest →
      (∀ i : Nat, s.callers[i]? = some .entering →
        s.step (.pass i) = some { s with callers := s.callers.set i (.returned none) }) ∧
      (∀ i w : Nat, s.callers[i]? = some (.waiting w) →
        s.step (.awake i) = some { s with callers := s.callers.set i .entering }) ∧
      s.fence.exitErr = some (.leaseLost first) ∧ s.fence.health = some (.leaseLost first) ∧
      s.fence.pause = s.fence ∧ s.fence.resume = s.fence) ∧
    (∀ i w : Nat, s.callers[i]? = some (.waiting w) →
      (s.fence.channels[w]? = some true ∨ w = s.fence.wakeup) ∧
      s.fence.resume.channels[w]? = some true ∧
      ∀ err, (s.fence.fail err).channels[w]? = some true) ∧
    s.fence.channels[s.fence.wakeup]? = some false ∧ s.closed.Nodup := by
  have hinv := System.inv_of_reaches h
  refine ⟨hinv.issued, fun i j => System.live_unique, ?_, ?_, ?_, hinv.wakeup, hinv.nodup⟩
  · intro hstopped i hlive
    exact s.fence.stopped hstopped i hlive.2
  · intro first rest hfail
    have hlost : s.fence.lost = some first := by rw [hinv.lost, hfail]; rfl
    have hsome : s.fence.lost.isSome := by rw [hlost]; rfl
    rcases hinv.refused hfail with ⟨hpass, hawake⟩
    exact ⟨hpass, hawake, by simp only [Fence.exitErr, hlost], by simp only [Fence.health, hlost],
      Fence.pause_of_lost hsome, Fence.resume_of_lost hsome⟩
  · intro i w hi
    exact ⟨(hinv.waiting i w hi).imp_right fun hopen => hopen.1, hinv.woken hi⟩

namespace System

/-- A context is taken away, the next call waits through a `resume` that comes with a second `pause`,
and the lease is lost twice. -/
def scenario : List (Event String) :=
  [.call, .pass 0, .pause, .call, .pass 1, .resume, .pause, .awake 1, .pass 1, .fail "timeout",
    .fail "again", .resume]

end System

theorem fence_one_live_context_lost :
    ∃ s : System String, System.Comes false s ∧ s.callers = [.returned (some 0), .waiting 1] ∧
      s.failures = ["timeout", "again"] ∧ s.closed = [0, 1] ∧
      s.fence.exitErr = some (.leaseLost "timeout") ∧
      s.step (.awake 1) = some { s with callers := [.returned (some 0), .entering] } := by
  have hrun : (Trace.execute System.step (fun _ _ => True) System.scenario (System.new false)).map
      (fun s => (s.callers, s.failures, s.closed)) =
      some ([.returned (some 0), .waiting 1], ["timeout", "again"], [0, 1]) := by
    decide +kernel
  rcases Trace.exists_of_execute hrun with ⟨s, hs, hvalue⟩
  simp only [Prod.mk.injEq] at hvalue
  rcases hvalue with ⟨hcallers, hfailures, hclosed⟩
  rcases (fence_one_live_context hs).2.2.2.1 _ _ hfailures with ⟨_, hawake, hexit, _⟩
  have hstep := hawake 1 1 (by simp [hcallers])
  rw [hcallers] at hstep
  exact ⟨s, hs, hcallers, hfailures, hclosed, hexit, hstep⟩

end RelayPoint.Projector
