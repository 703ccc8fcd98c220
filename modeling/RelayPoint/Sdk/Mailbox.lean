import Mathlib.Data.List.Basic
import Mathlib.Data.List.Pairwise
import Mathlib.Logic.Function.Basic

/-!
# Mailbox — the ordered stream between a delivery and its consumer

`Mailbox<T>` is a queue that is read through asynchronous iterators.  `push`, `error` and `close` are
called by the producer; an iterator hands out what is queued, or waits for the next item.

An iterator is an asynchronous generator: it stands at a point of its body and runs on when a `next`
or `return` call is served, or when the promise it awaits is settled.  Calls made while it runs are
queued by the runtime and served, in order, once it pauses; `next` and `stop` here are the serving of
a call.  `answers` records what the calls of `next` were answered with, over all iterators.
-/

namespace RelayPoint.Sdk

inductive Settlement (T E : Type) where
  | value (item : T)
  | done
  | error (e : E)

inductive Point (T E : Type) where
  | start
  | yielded
  | awaiting
  | settled (r : Settlement T E)
  | finished

inductive Answer (T E : Type) where
  | item (x : T)
  | done
  | failure (e : E)
  | refused
deriving DecidableEq

inductive ConsumerCall where
  | next (g : Nat)
  | stop (g : Nat)

structure Mailbox (T E : Type) where
  queue : List T := []
  waiters : List Nat := []
  done : Bool := false
  failure : Option E := none
  iterating : Bool := false
  iterators : Nat → Point T E := fun _ => .start
  answers : List (Answer T E) := []

variable {T E : Type}

namespace Mailbox

def setPoint (m : Mailbox T E) (g : Nat) (p : Point T E) : Mailbox T E :=
  { m with iterators := Function.update m.iterators g p }

def answer (m : Mailbox T E) (a : Answer T E) : Mailbox T E :=
  { m with answers := m.answers ++ [a] }

def push (m : Mailbox T E) (item : T) : Mailbox T E :=
  if m.done then m
  else
    match m.waiters with
    | w :: ws => { m with waiters := ws }.setPoint w (.settled (.value item))
    | [] => { m with queue := m.queue ++ [item] }

def error (m : Mailbox T E) (e : E) : Mailbox T E :=
  if m.done then m
  else
    match m.waiters with
    | w :: ws => { m with failure := some e, done := true, waiters := ws }.setPoint w (.settled (.error e))
    | [] => { m with failure := some e, done := true }

def close (m : Mailbox T E) : Mailbox T E :=
  if m.done then m
  else m.waiters.foldl (fun m w => m.setPoint w (.settled .done)) { m with done := true, waiters := [] }

def leave (m : Mailbox T E) (g : Nat) : Mailbox T E :=
  { m with iterating := false }.setPoint g .finished

/-- One round of the iterator's loop, up to the next `yield`, `await`, `return` or `throw`. -/
def pull (m : Mailbox T E) (g : Nat) : Mailbox T E :=
  match m.queue with
  | x :: rest => ({ m with queue := rest }.setPoint g .yielded).answer (.item x)
  | [] =>
    if m.done then
      match m.failure with
      | some e => (m.leave g).answer (.failure e)
      | none => (m.leave g).answer .done
    else { m with waiters := m.waiters ++ [g] }.setPoint g .awaiting

def next (m : Mailbox T E) (g : Nat) : Option (Mailbox T E) :=
  match m.iterators g with
  | .start =>
    if m.iterating then some ((m.setPoint g .finished).answer .refused)
    else some ({ m with iterating := true }.pull g)
  | .yielded => some (m.pull g)
  | .finished => some (m.answer .done)
  | .awaiting | .settled _ => none

/-- Serve a call of `return` or `throw`.  An iterator that never started has no `finally` to run. -/
def stop (m : Mailbox T E) (g : Nat) : Option (Mailbox T E) :=
  match m.iterators g with
  | .start => some (m.setPoint g .finished)
  | .yielded => some (m.leave g)
  | .finished => some m
  | .awaiting | .settled _ => none

def call (m : Mailbox T E) : ConsumerCall → Option (Mailbox T E)
  | .next g => m.next g
  | .stop g => m.stop g

def resume (m : Mailbox T E) (g : Nat) : Option (Mailbox T E) :=
  match m.iterators g with
  | .settled (.value x) => some ((m.setPoint g .yielded).answer (.item x))
  | .settled .done => some ((m.leave g).answer .done)
  | .settled (.error e) => some ((m.leave g).answer (.failure e))
  | .start | .yielded | .awaiting | .finished => none

end Mailbox

/-! ## What has been handed over -/

def Answer.item? : Answer T E → Option T
  | .item x => some x
  | .done | .failure _ | .refused => none

def items (as : List (Answer T E)) : List T :=
  as.filterMap Answer.item?

@[simp] theorem items_append (as bs : List (Answer T E)) : items (as ++ bs) = items as ++ items bs := by
  simp [items]

@[simp] theorem items_item (x : T) : items [(.item x : Answer T E)] = [x] :=
  rfl

@[simp] theorem items_done : items [(.done : Answer T E)] = [] :=
  rfl

@[simp] theorem items_failure (e : E) : items [(.failure e : Answer T E)] = [] :=
  rfl

@[simp] theorem items_refused : items [(.refused : Answer T E)] = [] :=
  rfl

def Answer.Precedes (a b : Answer T E) : Prop :=
  ∀ e x, a = .failure e → b ≠ .item x

namespace Point

def Running : Point T E → Prop
  | .start | .finished => False
  | .yielded | .awaiting | .settled _ => True

def held : Point T E → List T
  | .settled (.value x) => [x]
  | .settled .done | .settled (.error _) | .start | .yielded | .awaiting | .finished => []

end Point

namespace Mailbox

def held (m : Mailbox T E) (active : Option Nat) : List T :=
  active.elim [] fun g => (m.iterators g).held

structure Inv (m : Mailbox T E) (active : Option Nat) (xs : List T) : Prop where
  iterating_eq : m.iterating = active.isSome
  running_iff : ∀ g, (m.iterators g).Running ↔ active = some g
  waiting : ∀ w ∈ m.waiters,
    m.waiters = [w] ∧ m.iterators w = .awaiting ∧ m.queue = [] ∧ m.done = false
  stream : items m.answers ++ m.held active ++ m.queue = xs
  failing : ∀ g e, m.iterators g = .settled (.error e) → m.done = true ∧ m.queue = []
  failed : ∀ e, .failure e ∈ m.answers → m.done = true ∧ m.queue = [] ∧ m.held active = []
  ordered : m.answers.Pairwise Answer.Precedes

theorem inv_empty : ({} : Mailbox T E).Inv none [] where
  iterating_eq := rfl
  running_iff g := by simp [Point.Running]
  waiting := by simp
  stream := rfl
  failing := by simp
  failed := by simp
  ordered := List.Pairwise.nil

section

variable {m : Mailbox T E} {active : Option Nat} {xs : List T} {g : Nat}

@[simp] theorem iterators_setPoint (p : Point T E) (h : Nat) :
    (m.setPoint g p).iterators h = if h = g then p else m.iterators h := by
  simp [setPoint, Function.update_apply]

theorem held_setPoint (p : Point T E) : (m.setPoint g p).held (some g) = p.held := by
  simp [held]

theorem Inv.items_prefix_of (h : m.Inv active xs) : items m.answers <+: xs :=
  ⟨m.held active ++ m.queue, by rw [← h.stream, List.append_assoc]⟩

variable {p : Point T E} {m' : Mailbox T E}

theorem Inv.running_setPoint (h : m.Inv (some g) xs) (hp : p.Running) (g' : Nat) :
    ((m.setPoint g p).iterators g').Running ↔ some g = some g' := by
  by_cases hg : g' = g
  · simp [hg, hp]
  · simpa [hg] using h.running_iff g'

theorem Inv.running_leave (h : m.Inv (some g) xs) (g' : Nat) :
    ((m.setPoint g .finished).iterators g').Running ↔ none = some g' := by
  by_cases hg : g' = g
  · simp [hg, Point.Running]
  · have := h.running_iff g'
    simp only [Option.some.injEq, Ne.symm hg] at this
    simpa [hg] using this

theorem Inv.no_error_setPoint (h : m.Inv (some g) xs) (hp : ∀ e, p ≠ .settled (.error e)) (g' : Nat)
    (e : E) : (m.setPoint g p).iterators g' ≠ .settled (.error e) := by
  intro hg'
  by_cases hg : g' = g
  · exact hp e (by simpa [hg] using hg')
  · have hpoint : m.iterators g' = .settled (.error e) := by simpa [hg] using hg'
    have hactive : some g = some g' := (h.running_iff g').1 (by simp [hpoint, Point.Running])
    exact hg (Option.some.inj hactive).symm

theorem Inv.active_of_running (h : m.Inv active xs) (hg : (m.iterators g).Running) :
    active = some g :=
  (h.running_iff g).1 hg

theorem Inv.no_waiters (h : m.Inv active xs) (hg : active = some g) (hpoint : m.iterators g ≠ .awaiting) :
    m.waiters = [] := by
  refine List.eq_nil_iff_forall_not_mem.2 ?_
  intro w hw
  rcases h.waiting w hw with ⟨-, hwait, -⟩
  have : active = some w := h.active_of_running (by simp [hwait, Point.Running])
  rw [hg] at this
  cases this
  exact hpoint hwait

theorem pairwise_answer {as : List (Answer T E)} (h : as.Pairwise Answer.Precedes) {a : Answer T E}
    (ha : ∀ x, a = .item x → ∀ e, .failure e ∉ as) : (as ++ [a]).Pairwise Answer.Precedes := by
  refine List.pairwise_append.2 ⟨h, List.pairwise_singleton _ _, ?_⟩
  intro b hb c hc e x hbe hcx
  cases List.mem_singleton.1 hc
  exact ha x hcx e (hbe ▸ hb)

/-! ## The producer's side -/

theorem Inv.no_failure_of_open (h : m.Inv active xs) (hopen : m.done = false) (e : E) :
    .failure e ∉ m.answers ∧ ∀ g, m.iterators g ≠ .settled (.error e) := by
  refine ⟨fun he => ?_, fun g hg => ?_⟩
  · exact absurd (h.failed e he).1 (by simp [hopen])
  · exact absurd (h.failing g e hg).1 (by simp [hopen])

theorem Inv.settle (h : m.Inv active xs) {w : Nat} {ws : List Nat} (hw : m.waiters = w :: ws)
    (d : Bool) (f : Option E) {r : Settlement T E} (hr : ∀ e, r = .error e → d = true) :
    ({ m with waiters := ws, done := d, failure := f }.setPoint w (.settled r)).Inv active
      (xs ++ (Point.settled r).held) := by
  rcases h.waiting w (by simp [hw]) with ⟨hws, hwait, hqueue, hopen⟩
  have hact : active = some w := h.active_of_running (by simp [hwait, Point.Running])
  cases hact
  have hnil : ws = [] := by simpa [hw] using hws
  refine ⟨h.iterating_eq, h.running_setPoint trivial, by simp [setPoint, hnil], ?_, ?_, ?_, h.ordered⟩
  · have hheld : m.held (some w) = [] := by simp [Mailbox.held, hwait, Point.held]
    have hstream : items m.answers = xs := by simpa [hheld, hqueue] using h.stream
    rw [held_setPoint, ← hstream]
    simp [setPoint, hqueue]
  · intro g e hg
    by_cases hgw : g = w
    · exact ⟨hr e (by simpa [hgw] using hg), hqueue⟩
    · exact absurd (by simpa [hgw] using hg) ((h.no_failure_of_open hopen e).2 g)
  · exact fun e he => absurd he (h.no_failure_of_open hopen e).1

theorem Inv.enqueue (h : m.Inv active xs) (hopen : m.done = false) (d : Bool) (f : Option E)
    (more : List T) :
    ({ m with queue := m.queue ++ more, waiters := [], done := d, failure := f } : Mailbox T E).Inv active
      (xs ++ more) := by
  refine ⟨h.iterating_eq, h.running_iff, by simp, ?_, ?_, ?_, h.ordered⟩
  · rw [← h.stream]
    simp [Mailbox.held]
  · exact fun g e hg => absurd hg ((h.no_failure_of_open hopen e).2 g)
  · exact fun e he => absurd he (h.no_failure_of_open hopen e).1

theorem Inv.push (h : m.Inv active xs) (item : T) :
    (m.push item).Inv active (if m.done then xs else xs ++ [item]) := by
  unfold Mailbox.push
  cases hdone : m.done with
  | true => simpa using h
  | false =>
    cases hw : m.waiters with
    | nil => simpa [hdone] using h.enqueue hdone false m.failure [item]
    | cons w ws =>
      simpa [Point.held] using h.settle hw false m.failure (by simp)

theorem Inv.error (h : m.Inv active xs) (e : E) : (m.error e).Inv active xs := by
  unfold Mailbox.error
  cases hdone : m.done with
  | true => simpa using h
  | false =>
    cases hw : m.waiters with
    | nil => simpa [hw] using h.enqueue hdone true (some e) []
    | cons w ws => simpa [Point.held] using h.settle hw true (some e) (r := .error e) (by simp)

theorem Inv.close (h : m.Inv active xs) : m.close.Inv active xs := by
  unfold Mailbox.close
  cases hdone : m.done with
  | true => simpa using h
  | false =>
    cases hw : m.waiters with
    | nil => simpa using h.enqueue hdone true m.failure []
    | cons w ws =>
      rcases h.waiting w (by simp [hw]) with ⟨hws, -⟩
      have hnil : ws = [] := by simpa [hw] using hws
      subst hnil
      simpa [Point.held] using h.settle hw true m.failure (r := .done) (by simp)

/-! ## The consumer's side -/

theorem Inv.yield (h : m.Inv (some g) xs) (hpoint : m.iterators g ≠ .awaiting) {x : T} {rest : List T}
    (hnext : m.held (some g) ++ m.queue = x :: rest) :
    (({ m with queue := rest }.setPoint g .yielded).answer (.item x)).Inv (some g) xs := by
  have hopen : ∀ e, .failure e ∉ m.answers := by
    intro e he
    rcases h.failed e he with ⟨-, hqueue, hheld⟩
    simp [hqueue, hheld] at hnext
  refine ⟨h.iterating_eq, h.running_setPoint trivial, ?_, ?_, ?_, ?_, ?_⟩
  · simp [answer, setPoint, h.no_waiters rfl hpoint]
  · have hstream : items m.answers ++ x :: rest = xs := by rw [← hnext, ← List.append_assoc, h.stream]
    rw [← hstream]
    simp [answer, setPoint, Mailbox.held, Point.held]
  · exact fun g' e hg' => absurd hg' (h.no_error_setPoint (by simp) g' e)
  · intro e he
    simp [answer, setPoint, hopen e] at he
  · exact pairwise_answer h.ordered fun _ _ => hopen

theorem Inv.leave (h : m.Inv (some g) xs) (hpoint : m.iterators g ≠ .awaiting)
    (hheld : m.held (some g) = []) : (m.leave g).Inv none xs := by
  refine ⟨rfl, h.running_leave, ?_, ?_, ?_, ?_, h.ordered⟩
  · simp [Mailbox.leave, setPoint, h.no_waiters rfl hpoint]
  · rw [← h.stream, hheld]
    rfl
  · exact fun g' e hg' => absurd hg' (h.no_error_setPoint (by simp) g' e)
  · intro e he
    rcases h.failed e he with ⟨hdone, hqueue, -⟩
    exact ⟨hdone, hqueue, rfl⟩

theorem Inv.answer (h : m.Inv active xs) {a : Answer T E} (hitem : a.item? = none)
    (hfail : ∀ e, a = .failure e → m.done = true ∧ m.queue = [] ∧ m.held active = []) :
    (m.answer a).Inv active xs := by
  refine ⟨h.iterating_eq, h.running_iff, h.waiting, ?_, h.failing, ?_, ?_⟩
  · have hnone : items [a] = [] := by simp [items, hitem]
    rw [← h.stream]
    simp [Mailbox.answer, Mailbox.held, hnone]
  · intro e he
    rcases List.mem_append.1 he with he | he
    · exact h.failed e he
    · exact hfail e (List.mem_singleton.1 he).symm
  · refine pairwise_answer h.ordered ?_
    intro x hx
    simp [hx, Answer.item?] at hitem

theorem Inv.outside (h : m.Inv active xs) (hg : active ≠ some g) (hp : ¬ p.Running) :
    (m.setPoint g p).Inv active xs := by
  have hsame : ∀ g', active = some g' → (m.setPoint g p).iterators g' = m.iterators g' := by
    intro g' hg'
    have : g' ≠ g := fun he => hg (he ▸ hg')
    simp [this]
  have hheld : (m.setPoint g p).held active = m.held active := by
    cases active with
    | none => rfl
    | some g' => simp only [Mailbox.held, Option.elim, hsame g' rfl]
  refine ⟨h.iterating_eq, ?_, ?_, ?_, ?_, ?_, h.ordered⟩
  · intro g'
    by_cases hgg : g' = g
    · simp [hgg, hp, hg]
    · simpa [hgg] using h.running_iff g'
  · intro w hw
    rcases h.waiting w hw with ⟨hws, hwait, hrest⟩
    have hactive := h.active_of_running (by rw [hwait]; trivial)
    exact ⟨hws, (hsame w hactive).trans hwait, hrest⟩
  · rw [hheld]
    exact h.stream
  · intro g' e hg'
    by_cases hgg : g' = g
    · simp only [hgg, iterators_setPoint, if_true] at hg'
      rw [hg'] at hp
      exact absurd trivial hp
    · exact h.failing g' e (by simpa [hgg] using hg')
  · rw [hheld]
    exact h.failed

theorem Inv.enter (h : m.Inv none xs) :
    ({ m with iterating := true }.setPoint g .yielded).Inv (some g) xs := by
  have hquiet : ∀ g', ¬ (m.iterators g').Running := fun g' hrun => by simpa using h.active_of_running hrun
  refine ⟨rfl, ?_, ?_, ?_, ?_, ?_, h.ordered⟩
  · intro g'
    by_cases hgg : g' = g
    · simp [hgg, Point.Running]
    · simp [hgg, hquiet g', Ne.symm hgg]
  · intro w hw
    rcases h.waiting w hw with ⟨-, hwait, -⟩
    exact absurd (by rw [hwait]; trivial) (hquiet w)
  · rw [held_setPoint]
    exact h.stream
  · intro g' e hg'
    by_cases hgg : g' = g
    · simp [hgg] at hg'
    · refine absurd ?_ (hquiet g')
      rw [show m.iterators g' = _ by simpa [hgg] using hg']
      trivial
  · intro e he
    rcases h.failed e he with ⟨hdone, hqueue, -⟩
    exact ⟨hdone, hqueue, held_setPoint _⟩

theorem pull_setPoint (p : Point T E) : (m.setPoint g p).pull g = m.pull g := by
  simp [pull, setPoint, Mailbox.leave]

theorem Inv.pull (h : m.Inv (some g) xs) (hpoint : m.iterators g = .yielded) :
    ∃ active, (m.pull g).Inv active xs := by
  have hheld : m.held (some g) = [] := by simp [Mailbox.held, hpoint, Point.held]
  have hidle : m.iterators g ≠ .awaiting := by simp [hpoint]
  unfold Mailbox.pull
  cases hqueue : m.queue with
  | cons x rest => exact ⟨some g, h.yield hidle (by simp [hheld, hqueue])⟩
  | nil =>
    cases hdone : m.done with
    | true =>
      have hleft := h.leave hidle hheld
      cases hfailure : m.failure with
      | some e => exact ⟨none, hleft.answer rfl fun _ _ => ⟨hdone, hqueue, rfl⟩⟩
      | none => exact ⟨none, hleft.answer rfl (by simp)⟩
    | false =>
      -- the iterator becomes the one that waits
      refine ⟨some g, h.iterating_eq, h.running_setPoint trivial, ?_, ?_, ?_, ?_, h.ordered⟩
      · intro w hw
        have hone : w = g := by simpa [setPoint, h.no_waiters rfl hidle] using hw
        simp [setPoint, h.no_waiters rfl hidle, hone]
      · rw [← h.stream, hheld, hqueue]
        simp [setPoint, Mailbox.held, Point.held]
      · exact fun g' e hg' => absurd hg' (h.no_error_setPoint (by simp) g' e)
      · exact fun e he => absurd he (h.no_failure_of_open hdone e).1

theorem Inv.next (h : m.Inv active xs) (hnext : m.next g = some m') :
    ∃ active', m'.Inv active' xs := by
  unfold Mailbox.next at hnext
  cases hpoint : m.iterators g with
  | start =>
    have hout : active ≠ some g := by
      intro hactive
      have := (h.running_iff g).2 hactive
      simp [hpoint, Point.Running] at this
    cases hiter : m.iterating with
    | true =>
      simp only [hpoint, hiter, if_true, Option.some.injEq] at hnext
      subst hnext
      exact ⟨active, (h.outside hout (by simp [Point.Running])).answer rfl (by simp)⟩
    | false =>
      simp only [hpoint, hiter, Bool.false_eq_true, if_false, Option.some.injEq] at hnext
      subst hnext
      have hnone : active = none := by simpa [hiter] using h.iterating_eq
      subst hnone
      rw [← pull_setPoint .yielded]
      exact h.enter.pull (by simp)
  | yielded =>
    have hactive := h.active_of_running (g := g) (by simp [hpoint, Point.Running])
    subst hactive
    simp only [hpoint, Option.some.injEq] at hnext
    subst hnext
    exact h.pull hpoint
  | finished =>
    simp only [hpoint, Option.some.injEq] at hnext
    subst hnext
    exact ⟨active, h.answer rfl (by simp)⟩
  | awaiting | settled r => simp [hpoint] at hnext

theorem Inv.stop (h : m.Inv active xs) (hstop : m.stop g = some m') :
    ∃ active', m'.Inv active' xs := by
  unfold Mailbox.stop at hstop
  cases hpoint : m.iterators g with
  | start =>
    have hout : active ≠ some g := by
      intro hactive
      have := (h.running_iff g).2 hactive
      simp [hpoint, Point.Running] at this
    simp only [hpoint, Option.some.injEq] at hstop
    subst hstop
    exact ⟨active, h.outside hout (by simp [Point.Running])⟩
  | yielded =>
    have hactive := h.active_of_running (g := g) (by simp [hpoint, Point.Running])
    subst hactive
    simp only [hpoint, Option.some.injEq] at hstop
    subst hstop
    exact ⟨none, h.leave (by simp [hpoint]) (by simp [Mailbox.held, hpoint, Point.held])⟩
  | finished =>
    simp only [hpoint, Option.some.injEq] at hstop
    subst hstop
    exact ⟨active, h⟩
  | awaiting | settled r => simp [hpoint] at hstop

theorem Inv.call {c : ConsumerCall} (h : m.Inv active xs) (hcall : m.call c = some m') :
    ∃ active', m'.Inv active' xs := by
  cases c with
  | next g => exact h.next hcall
  | stop g => exact h.stop hcall

theorem Inv.resume (h : m.Inv active xs) (hresume : m.resume g = some m') :
    ∃ active', m'.Inv active' xs := by
  unfold Mailbox.resume at hresume
  cases hpoint : m.iterators g with
  | settled r =>
    have hactive := h.active_of_running (g := g) (by simp [hpoint, Point.Running])
    subst hactive
    have hidle : m.iterators g ≠ .awaiting := by simp [hpoint]
    cases r with
    | value x =>
      simp only [hpoint, Option.some.injEq] at hresume
      subst hresume
      exact ⟨some g, h.yield hidle (by simp [Mailbox.held, hpoint, Point.held])⟩
    | done =>
      simp only [hpoint, Option.some.injEq] at hresume
      subst hresume
      have hleft := h.leave hidle (by simp [Mailbox.held, hpoint, Point.held])
      exact ⟨none, hleft.answer rfl (by simp)⟩
    | error e =>
      simp only [hpoint, Option.some.injEq] at hresume
      subst hresume
      rcases h.failing g e hpoint with ⟨hdone, hqueue⟩
      have hleft := h.leave hidle (by simp [Mailbox.held, hpoint, Point.held])
      exact ⟨none, hleft.answer rfl fun _ _ => ⟨hdone, hqueue, rfl⟩⟩
  | start | yielded | awaiting | finished => simp [hpoint] at hresume

end

def IsQueue (m : Mailbox T E) : Prop :=
  ∃ active xs, m.Inv active xs

section IsQueue

variable {m m' : Mailbox T E} (h : m.IsQueue)
include h

theorem IsQueue.push (item : T) : (m.push item).IsQueue := by
  rcases h with ⟨active, xs, hm⟩
  exact ⟨active, _, hm.push item⟩

theorem IsQueue.error (e : E) : (m.error e).IsQueue := by
  rcases h with ⟨active, xs, hm⟩
  exact ⟨active, xs, hm.error e⟩

theorem IsQueue.close : m.close.IsQueue := by
  rcases h with ⟨active, xs, hm⟩
  exact ⟨active, xs, hm.close⟩

theorem IsQueue.call {c : ConsumerCall} (hcall : m.call c = some m') : m'.IsQueue := by
  rcases h with ⟨active, xs, hm⟩
  rcases hm.call hcall with ⟨active', hm'⟩
  exact ⟨active', xs, hm'⟩

theorem IsQueue.resume {g : Nat} (hresume : m.resume g = some m') : m'.IsQueue := by
  rcases h with ⟨active, xs, hm⟩
  rcases hm.resume hresume with ⟨active', hm'⟩
  exact ⟨active', xs, hm'⟩

end IsQueue

/-! ## When the mailbox is done -/

@[simp] theorem done_push (m : Mailbox T E) (x : T) : (m.push x).done = m.done := by
  unfold Mailbox.push
  split
  · rfl
  · split <;> rfl

@[simp] theorem done_error (m : Mailbox T E) (e : E) : (m.error e).done = true := by
  unfold Mailbox.error
  split
  · next h => exact h
  · split <;> rfl

theorem done_foldl (ws : List Nat) (m : Mailbox T E) :
    (ws.foldl (fun m w => m.setPoint w (.settled .done)) m).done = m.done := by
  induction ws generalizing m with
  | nil => rfl
  | cons w ws ih => exact ih _

@[simp] theorem done_close (m : Mailbox T E) : m.close.done = true := by
  unfold Mailbox.close
  split
  · next h => exact h
  · exact done_foldl _ _

theorem done_pull (m : Mailbox T E) (g : Nat) : (m.pull g).done = m.done := by
  unfold Mailbox.pull
  split
  · rfl
  · split
    · split <;> rfl
    · rfl

section

variable {m m' : Mailbox T E} {g : Nat}

theorem done_call {c : ConsumerCall} (h : m.call c = some m') : m'.done = m.done := by
  cases c with
  | next g =>
    simp only [call, Mailbox.next] at h
    split at h
    · split at h
      · cases h
        rfl
      · cases h
        exact done_pull _ g
    · cases h
      exact done_pull m g
    · cases h
      rfl
    · cases h
    · cases h
  | stop g =>
    simp only [call, Mailbox.stop] at h
    split at h
    · cases h
      rfl
    · cases h
      rfl
    · cases h
      rfl
    · cases h
    · cases h

theorem done_resume (h : m.resume g = some m') : m'.done = m.done := by
  unfold Mailbox.resume at h
  split at h
  · cases h
    rfl
  · cases h
    rfl
  · cases h
    rfl
  all_goals cases h

end

end Mailbox

end RelayPoint.Sdk
