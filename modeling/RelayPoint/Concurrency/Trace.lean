import Mathlib.Logic.Basic

/-!
# Trace — runs of a transition function

A system is given by a partial step function: `step s e` is the state after the event `e`, if `e` can
happen in `s`.
-/

namespace RelayPoint.Concurrency
namespace Trace

variable {State Event : Type}

inductive Reaches (step : State → Event → Option State) (Allowed : State → Event → Prop)
    (s₀ : State) : State → Prop where
  | start : Reaches step Allowed s₀ s₀
  | tail {s s' : State} {e : Event} :
      Reaches step Allowed s₀ s → Allowed s e → step s e = some s' → Reaches step Allowed s₀ s'

section

variable {step : State → Event → Option State} {Allowed : State → Event → Prop} {s₀ s : State}

theorem Reaches.invariant {Inv : State → Prop} (hstart : Inv s₀)
    (hstep : ∀ {s s' e}, Inv s → Allowed s e → step s e = some s' → Inv s')
    (h : Reaches step Allowed s₀ s) : Inv s := by
  induction h with
  | start => exact hstart
  | tail _ hallowed hs ih => exact hstep ih hallowed hs

theorem Reaches.mono {Allowed' : State → Event → Prop} (hweak : ∀ s e, Allowed s e → Allowed' s e)
    (h : Reaches step Allowed s₀ s) : Reaches step Allowed' s₀ s := by
  induction h with
  | start => exact .start
  | tail _ hallowed hs ih => exact ih.tail (hweak _ _ hallowed) hs

end

section Execution

variable (step : State → Event → Option State) (Allowed : State → Event → Prop)
variable [∀ s e, Decidable (Allowed s e)]

def execute : List Event → State → Option State
  | [], s => some s
  | e :: es, s =>
    if Allowed s e then
      match step s e with
      | none => none
      | some s' => execute es s'
    else none

variable {step Allowed} {s₀ : State}

theorem Reaches.execute {es : List Event} :
    ∀ {s s' : State}, Reaches step Allowed s₀ s → Trace.execute step Allowed es s = some s' →
      Reaches step Allowed s₀ s' := by
  induction es with
  | nil =>
    intro s s' hs h
    have : s = s' := by simpa [Trace.execute] using h
    simpa [this] using hs
  | cons e es ih =>
    intro s s' hs h
    by_cases hallowed : Allowed s e
    · cases hstep : step s e with
      | none => simp [Trace.execute, hstep] at h
      | some t =>
        have ht : Trace.execute step Allowed es t = some s' := by
          simpa [Trace.execute, hallowed, hstep] using h
        exact ih (hs.tail hallowed hstep) ht
    · simp [Trace.execute, hallowed] at h

theorem exists_of_execute {β : Type} {es : List Event} {f : State → β} {v : β}
    (h : (Trace.execute step Allowed es s₀).map f = some v) :
    ∃ s, Reaches step Allowed s₀ s ∧ f s = v := by
  rcases Option.map_eq_some_iff.1 h with ⟨s, hrun, hv⟩
  exact ⟨s, Reaches.start.execute hrun, hv⟩

end Execution

end Trace
end RelayPoint.Concurrency
