import RelayPoint.Concurrency.Pool

/-!
# Moves — the operations of one call in an interleaved run

`Reachable` says which configurations a run comes to, not who did what on the way.  Here a run is
recorded as the list of its moves, each an operation of one thread with the world before and after.
-/

namespace RelayPoint.Concurrency

structure Move (World : Type) where
  thread : Nat
  before : World
  after : World

def movesOf {World : Type} (i : Nat) (moves : List (Move World)) : List (World × World) :=
  (moves.filter fun m => m.thread = i).map fun m => (m.before, m.after)

section Moves

variable {Op : Type} {Ans : Op → Type} {Call World Res Choice Tick : Type} {α β : Type}
variable (M : Machine Ans World Choice Tick) (body : Call → Prog Ans Res)

def moved (w w' : World) : Label Call Choice Tick → List (Move World)
  | .act i _ => [⟨i, w, w'⟩]
  | .spawn _ | .tick _ => []

inductive Traced (w₀ : World) : Config Ans Call World Res → List (Move World) → Prop where
  | start : Traced w₀ ⟨w₀, []⟩ []
  | tail {c c' : Config Ans Call World Res} {moves : List (Move World)}
      {l : Label Call Choice Tick} : Traced w₀ c moves → step M body c l = some c' →
        Traced w₀ c' (moves ++ moved c.world c'.world l)

/-- The program goes from `p` to `q` by these operations; the world may change between them. -/
inductive Performs : Prog Ans α → List (World × World) → Prog Ans α → Prop where
  | done (p : Prog Ans α) : Performs p [] p
  | call {op : Op} {next : Ans op → Prog Ans α} {ch : Choice} {a : Ans op} {w w' : World}
      {steps : List (World × World)} {q : Prog Ans α} : M.perform w op ch = some (a, w') →
        Performs (next a) steps q → Performs (.call op next) ((w, w') :: steps) q

def Owns (Q : List (World × World) → α → Prop) (p : Prog Ans α) : Prop :=
  ∀ steps a, Performs M p steps (.ret a) → Q steps a

variable {M body}

theorem Performs.concat {p q : Prog Ans α} {steps : List (World × World)}
    (h : Performs M p steps q) {op : Op} {next : Ans op → Prog Ans α} {ch : Choice} {a : Ans op}
    {w w' : World} (hq : q = .call op next) (hp : M.perform w op ch = some (a, w')) :
    Performs M p (steps ++ [(w, w')]) (next a) := by
  induction h with
  | done p =>
    subst hq
    exact .call hp (.done _)
  | call hop _ ih => exact .call hop (ih hq)

theorem movesOf_append (i : Nat) (moves later : List (Move World)) :
    movesOf i (moves ++ later) = movesOf i moves ++ movesOf i later := by
  simp [movesOf]

theorem movesOf_self (i : Nat) (w w' : World) : movesOf i [⟨i, w, w'⟩] = [(w, w')] := by
  simp [movesOf]

theorem movesOf_other {i j : Nat} (h : j ≠ i) (w w' : World) : movesOf i [⟨j, w, w'⟩] = [] := by
  simp [movesOf, h]

variable {w₀ : World} {c : Config Ans Call World Res} {moves : List (Move World)}

theorem Traced.thread_lt (h : Traced M body w₀ c moves) :
    ∀ m ∈ moves, m.thread < c.pool.length := by
  induction h with
  | start => simp
  | @tail c c' moves l _ hstep ih =>
    intro m hm
    cases l with
    | spawn call =>
      cases hstep
      have hlt := ih m (by simpa [moved] using hm)
      simp only [List.length_append]
      omega
    | act i ch =>
      rcases step_act hstep with ⟨th, op, next, a, w, hi, _, _, rfl⟩
      have hlt := (List.getElem?_eq_some_iff.1 hi).1
      rcases List.mem_append.1 hm with hm | hm
      · simpa using ih m hm
      · have hm : m = ⟨i, c.world, w⟩ := by simpa [moved] using hm
        simpa [hm] using hlt
    | tick t =>
      rcases step_tick hstep with ⟨w, _, rfl⟩
      exact ih m (by simpa [moved] using hm)

theorem Traced.performs (h : Traced M body w₀ c moves) : ∀ i th, c.pool[i]? = some th →
      Performs M (body th.call) (movesOf i moves) th.prog := by
  induction h with
  | start => simp
  | @tail c c' moves l hc hstep ih =>
    intro j th hth
    cases l with
    | spawn call =>
      cases hstep
      rw [moved, List.append_nil]
      by_cases hlt : j < c.pool.length
      · rw [List.getElem?_append_left hlt] at hth
        exact ih j th hth
      · -- the new thread has not moved yet
        have hnone : movesOf j moves = [] := by
          simp only [movesOf, List.map_eq_nil_iff, List.filter_eq_nil_iff, decide_eq_true_eq]
          intro m hm heq
          exact hlt (heq ▸ hc.thread_lt m hm)
        have hnew : th = ⟨call, c.world, body call⟩ := by
          rw [List.getElem?_append_right (Nat.le_of_not_lt hlt)] at hth
          simpa using List.mem_of_getElem? hth
        rw [hnone, hnew]
        exact .done _
    | act i ch =>
      rcases step_act hstep with ⟨th₀, op, next, a, w, hi, hp, hperf, rfl⟩
      rw [movesOf_append, moved]
      by_cases hij : i = j
      · subst hij
        have hlt := (List.getElem?_eq_some_iff.1 hi).1
        have heq : th = { th₀ with prog := next a } := by
          simpa [List.getElem?_set_self hlt] using hth.symm
        rw [heq, movesOf_self]
        exact (ih i th₀ hi).concat hp hperf
      · rw [List.getElem?_set_ne hij] at hth
        rw [movesOf_other hij, List.append_nil]
        exact ih j th hth
    | tick t =>
      rcases step_tick hstep with ⟨w, _, rfl⟩
      simpa [moved] using ih j th hth

theorem Traced.returned (h : Traced M body w₀ c moves) {i : Nat} {call : Call} {r : Res}
    (hres : c.result i = some (call, r)) : Performs M (body call) (movesOf i moves) (.ret r) := by
  cases hi : c.pool[i]? with
  | none => simp [Config.result, hi] at hres
  | some th =>
    cases hp : th.prog with
    | call op next => simp [Config.result, hi, hp] at hres
    | ret a =>
      have heq : th.call = call ∧ a = r := by simpa [Config.result, hi, hp] using hres
      rw [← heq.1, ← heq.2, ← hp]
      exact h.performs i th hi

/-! ## The rules of `Owns` -/

section Owns

variable {Q Q' : List (World × World) → α → Prop}

theorem owns_pure {a : α} (h : Q [] a) : Owns M Q (pure a) := by
  intro steps b hb
  cases hb
  exact h

variable {R : List (World × World) → β → Prop} {p : Prog Ans α}

theorem owns_perform {op : Op} {f : Ans op → Prog Ans β}
    (h : ∀ w ch a w', M.perform w op ch = some (a, w') →
      Owns M (fun steps b => R ((w, w') :: steps) b) (f a)) : Owns M R (Prog.perform op >>= f) := by
  intro steps b hb
  cases hb with
  | call hp hnext => exact h _ _ _ _ hp _ _ hnext

theorem owns_bind {f : α → Prog Ans β}
    (h : Owns M (fun first a => Owns M (fun second b => R (first ++ second) b) (f a)) p) :
    Owns M R (p >>= f) := by
  induction p generalizing R with
  | ret a => exact h [] a (.done _)
  | call op next ih =>
    intro steps b hb
    cases hb with
    | @call _ _ _ a w w' steps _ hp hnext =>
      refine ih a (R := fun steps b => R ((w, w') :: steps) b) ?_ steps b hnext
      intro first c hc
      exact h ((w, w') :: first) c (.call hp hc)

theorem Owns.mono (hQ : ∀ steps a, Q steps a → Q' steps a) (h : Owns M Q p) : Owns M Q' p :=
  fun steps a hp => hQ steps a (h steps a hp)

end Owns

/-! ## Executing a schedule -/

def traceRun (M : Machine Ans World Choice Tick) (body : Call → Prog Ans Res) :
    List (Label Call Choice Tick) → Config Ans Call World Res × List (Move World) →
      Option (Config Ans Call World Res × List (Move World))
  | [], out => some out
  | l :: ls, (c, moves) =>
    match step M body c l with
    | none => none
    | some c' => traceRun M body ls (c', moves ++ moved c.world c'.world l)

variable {ls : List (Label Call Choice Tick)}

theorem Traced.run :
    ∀ {c c' : Config Ans Call World Res} {moves moves' : List (Move World)},
      Traced M body w₀ c moves → traceRun M body ls (c, moves) = some (c', moves') →
      Traced M body w₀ c' moves' := by
  induction ls with
  | nil =>
    intro c c' moves moves' h hrun
    cases hrun
    exact h
  | cons l ls ih =>
    intro c c' moves moves' h hrun
    cases hl : step M body c l with
    | none => simp [traceRun, hl] at hrun
    | some d => exact ih (h.tail hl) (by simpa [traceRun, hl] using hrun)

theorem exists_of_trace {γ : Type} {f : Config Ans Call World Res × List (Move World) → γ} {v : γ}
    (h : (traceRun M body ls (⟨w₀, []⟩, [])).map f = some v) :
    ∃ c moves, Traced M body w₀ c moves ∧ f (c, moves) = v := by
  rcases Option.map_eq_some_iff.1 h with ⟨⟨c, moves⟩, hrun, hv⟩
  exact ⟨c, moves, Traced.start.run hrun, hv⟩

end Moves

end RelayPoint.Concurrency
