import RelayPoint.Concurrency.Pool

/-!
# Takeover — one worker at a time, replaced at any point

A service with a leader lease runs one worker.  The worker can be replaced between any two of its
operations; what the old one was about to do is then lost, what it had done stays.  The environment
moves between operations as in `Pool`.
-/

namespace RelayPoint.Concurrency
namespace Takeover

structure Config {Op : Type} (Ans : Op → Type) (Call World Res : Type) where
  world : World
  worker : Option (Thread Ans Call World Res)

inductive Label (Call Choice Tick : Type) where
  | takeover (call : Call)
  | act (choice : Choice)
  | tick (t : Tick)

section Runs

variable {Op : Type} {Ans : Op → Type} {Call World Res Choice Tick : Type}
variable (M : Machine Ans World Choice Tick) (body : Call → Prog Ans Res)

def step (c : Config Ans Call World Res) :
    Label Call Choice Tick → Option (Config Ans Call World Res)
  -- whatever the old worker had left to do is dropped
  | .takeover call => some { c with worker := some ⟨call, c.world, body call⟩ }
  | .act ch =>
    match c.worker with
    | none => none
    | some th =>
      match th.prog with
      | .ret _ => none
      | .call op next =>
        match M.perform c.world op ch with
        | none => none
        | some (a, w) => some ⟨w, some { th with prog := next a }⟩
  | .tick t =>
    match M.tick c.world t with
    | none => none
    | some w => some { c with world := w }

def Allowed (P : Policy Op Call World Choice Tick) (c : Config Ans Call World Res) :
    Label Call Choice Tick → Prop
  | .takeover call => P.spawn call
  | .act ch =>
    match c.worker with
    | none => True
    | some th =>
      match th.prog with
      | .ret _ => True
      | .call op _ => P.op th.born c.world op ch
  | .tick t => P.tick c.world t

inductive Reachable (P : Policy Op Call World Choice Tick) (w₀ : World) :
    Config Ans Call World Res → Prop where
  | start : Reachable P w₀ ⟨w₀, none⟩
  | tail {c c' : Config Ans Call World Res} {l : Label Call Choice Tick} :
      Reachable P w₀ c → Allowed P c l → step M body c l = some c' → Reachable P w₀ c'

variable {M body}
variable {c : Config Ans Call World Res}
variable {c' : Config Ans Call World Res}

theorem step_act {ch : Choice} (h : step M body c (.act ch) = some c') :
    ∃ th op next a w, c.worker = some th ∧ th.prog = .call op next ∧
      M.perform c.world op ch = some (a, w) ∧ c' = ⟨w, some { th with prog := next a }⟩ := by
  cases hw : c.worker with
  | none => simp [step, hw] at h
  | some th =>
    cases hp : th.prog with
    | ret r => simp [step, hw, hp] at h
    | call op next =>
      cases hperf : M.perform c.world op ch with
      | none => simp [step, hw, hp, hperf] at h
      | some aw =>
        rcases aw with ⟨a, w⟩
        refine ⟨th, op, next, a, w, rfl, hp, hperf, ?_⟩
        simpa [step, hw, hp, hperf] using h.symm

theorem step_tick {t : Tick} (h : step M body c (.tick t) = some c') :
    ∃ w, M.tick c.world t = some w ∧ c' = { c with world := w } := by
  cases ht : M.tick c.world t with
  | none => simp [step, ht] at h
  | some w => exact ⟨w, rfl, by simpa [step, ht] using h.symm⟩

theorem Reachable.mono {P P' : Policy Op Call World Choice Tick} {w₀ : World}
    (hspawn : ∀ call, P.spawn call → P'.spawn call)
    (hop : ∀ b w op ch, P.op b w op ch → P'.op b w op ch) (htick : ∀ w t, P.tick w t → P'.tick w t)
    (h : Reachable M body P w₀ c) : Reachable M body P' w₀ c := by
  induction h with
  | start => exact .start
  | @tail c c' l _ hall hstep ih =>
    refine ih.tail ?_ hstep
    cases l with
    | takeover call => exact hspawn call hall
    | act ch =>
      rcases step_act hstep with ⟨th, op, next, a, w, hw, hp, _, _⟩
      have hok : P.op th.born c.world op ch := by simpa [Allowed, hw, hp] using hall
      simpa [Allowed, hw, hp] using hop _ _ _ _ hok
    | tick t => exact htick _ _ hall

section Execution

variable (M body)
variable (P : Policy Op Call World Choice Tick) [decSpawn : ∀ call, Decidable (P.spawn call)]
variable [∀ w₀ w op ch, Decidable (P.op w₀ w op ch)] [decTick : ∀ w t, Decidable (P.tick w t)]

instance (c : Config Ans Call World Res) (l : Label Call Choice Tick) : Decidable (Allowed P c l) :=
  match l with
  | .takeover call => decSpawn call
  | .act ch =>
    match hw : c.worker with
    | none => .isTrue (by simp [Allowed, hw])
    | some th =>
      match hp : th.prog with
      | .ret _ => .isTrue (by simp [Allowed, hw, hp])
      | .call op _ => decidable_of_iff (P.op th.born c.world op ch) (by simp [Allowed, hw, hp])
  | .tick t => decTick c.world t

def run : List (Label Call Choice Tick) → Config Ans Call World Res →
    Option (Config Ans Call World Res)
  | [], c => some c
  | l :: ls, c =>
    if Allowed P c l then
      match step M body c l with
      | none => none
      | some c' => run ls c'
    else none

variable {M body P}
variable {ls : List (Label Call Choice Tick)}

theorem Reachable.run {w₀ : World} :
    ∀ {c c' : Config Ans Call World Res}, Reachable M body P w₀ c →
      Takeover.run M body P ls c = some c' → Reachable M body P w₀ c' := by
  induction ls with
  | nil =>
    intro c c' hc h
    have : c = c' := by simpa [Takeover.run] using h
    simpa [this] using hc
  | cons l ls ih =>
    intro c c' hc h
    by_cases hall : Allowed P c l
    · cases hl : step M body c l with
      | none => simp [Takeover.run, hl] at h
      | some d =>
        have hd : Takeover.run M body P ls d = some c' := by
          simpa [Takeover.run, hall, hl] using h
        exact ih (hc.tail hall hl) hd
    · simp [Takeover.run, hall] at h

theorem exists_of_run {β : Type} {w₀ : World} {f : Config Ans Call World Res → β} {v : β}
    (h : (Takeover.run M body P ls ⟨w₀, none⟩).map f = some v) :
    ∃ c, Reachable M body P w₀ c ∧ f c = v := by
  rcases Option.map_eq_some_iff.1 h with ⟨c, hrun, hv⟩
  exact ⟨c, Reachable.start.run hrun, hv⟩

end Execution

/-! ## Soundness -/

variable {P : Policy Op Call World Choice Tick} {w₀ : World} {D : Discipline World}

theorem Reachable.holds {Q : Call → World → Res → World → Prop} (hstart : D.Inv w₀)
    (hspawn : ∀ call w, P.spawn call → D.Inv w → Ensures M (P.op w) D (Q call w) (body call) w)
    (htick : ∀ w t w', P.tick w t → D.Inv w → M.tick w t = some w' → D.Rely w w' ∧ D.Inv w')
    (h : Reachable M body P w₀ c) :
    D.Inv c.world ∧ ∀ th ∈ c.worker, ∃ w, D.Rely w c.world ∧
      Ensures M (P.op th.born) D (Q th.call th.born) th.prog w := by
  induction h with
  | start => exact ⟨hstart, by simp⟩
  | @tail c c' l _ hall hstep ih =>
    rcases ih with ⟨hinv, hworker⟩
    cases l with
    | takeover call =>
      cases hstep
      refine ⟨hinv, ?_⟩
      intro th hth
      cases hth
      exact ⟨c.world, D.refl _, hspawn call c.world hall hinv⟩
    | act ch =>
      rcases step_act hstep with ⟨th, op, next, a, w', hw, hp, hperf, rfl⟩
      rcases hworker th hw with ⟨w, hrely, hens⟩
      have hok : P.op th.born c.world op ch := by simpa [Allowed, hw, hp] using hall
      rw [hp] at hens
      rcases hens c.world hrely hinv ch a w' hok hperf with ⟨_, hinv', hnext⟩
      refine ⟨hinv', ?_⟩
      intro th' hth'
      cases hth'
      exact ⟨w', D.refl _, hnext⟩
    | tick t =>
      rcases step_tick hstep with ⟨w', ht, rfl⟩
      rcases htick c.world t w' hall hinv ht with ⟨hrely', hinv'⟩
      refine ⟨hinv', ?_⟩
      intro th hth
      rcases hworker th hth with ⟨w, hrely, hens⟩
      exact ⟨w, D.trans hrely hrely', hens⟩

theorem Reachable.within {Inv : World → Prop} {Good : Op → Prop} {A : (op : Op) → Ans op → Prop}
    (hstart : Inv w₀) (hbody : ∀ call, Prog.Within Good A (fun _ => True) (body call))
    (hperform : ∀ {b w op ch a w'}, Inv w → Good op → P.op b w op ch →
      M.perform w op ch = some (a, w') → A op a ∧ Inv w')
    (htick : ∀ {w t w'}, Inv w → M.tick w t = some w' → Inv w') (h : Reachable M body P w₀ c) :
    Inv c.world ∧ ∀ th ∈ c.worker, Prog.Within Good A (fun _ => True) th.prog := by
  induction h with
  | start => exact ⟨hstart, by simp⟩
  | @tail c c' l _ hall hstep ih =>
    rcases ih with ⟨hinv, hworker⟩
    cases l with
    | takeover call =>
      cases hstep
      refine ⟨hinv, ?_⟩
      intro th hth
      cases hth
      exact hbody call
    | act ch =>
      rcases step_act hstep with ⟨th, op, next, a, w', hw, hp, hperf, rfl⟩
      have hok : P.op th.born c.world op ch := by simpa [Allowed, hw, hp] using hall
      have hth := hworker th hw
      rw [hp] at hth
      rcases hperform hinv hth.1 hok hperf with ⟨ha, hinv'⟩
      refine ⟨hinv', ?_⟩
      intro th' hth'
      cases hth'
      exact hth.2 a ha
    | tick t =>
      rcases step_tick hstep with ⟨w', ht, rfl⟩
      exact ⟨htick hinv ht, hworker⟩

end Runs

end Takeover
end RelayPoint.Concurrency
