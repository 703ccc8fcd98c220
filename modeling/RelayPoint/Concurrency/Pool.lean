import RelayPoint.Concurrency.Prog

/-!
# Pool — interleaved runs of programs, and a rely/guarantee rule for them

A `Machine` says what one atomic operation does to the shared world.  Its nondeterminism is made
explicit: `perform w op ch` is a function of a `Choice`, so that a schedule (a list of labels) can
be executed, and a claim about every run is a claim about every schedule.
-/

namespace RelayPoint.Concurrency

/-! ## Machines and pools -/

/-- `perform` is one atomic operation of a thread, `tick` a move of the environment; `none` means
that the operation or the move is not enabled. -/
structure Machine {Op : Type} (Ans : Op → Type) (World Choice Tick : Type) where
  perform : World → (op : Op) → Choice → Option (Ans op × World)
  tick : World → Tick → Option World

structure Thread {Op : Type} (Ans : Op → Type) (Call World Res : Type) where
  call : Call
  born : World
  prog : Prog Ans Res

structure Config {Op : Type} (Ans : Op → Type) (Call World Res : Type) where
  world : World
  pool : List (Thread Ans Call World Res)

def Config.result {Op : Type} {Ans : Op → Type} {Call World Res : Type}
    (c : Config Ans Call World Res) (i : Nat) : Option (Call × Res) :=
  match c.pool[i]? with
  | none => none
  | some th =>
    match th.prog with
    | .ret r => some (th.call, r)
    | .call _ _ => none

theorem Config.result_some {Op : Type} {Ans : Op → Type} {Call World Res : Type}
    {c : Config Ans Call World Res} {i : Nat} {call : Call} {r : Res}
    (h : c.result i = some (call, r)) : ∃ th ∈ c.pool, th.call = call ∧ th.prog = .ret r := by
  cases hi : c.pool[i]? with
  | none => simp [Config.result, hi] at h
  | some th =>
    cases hp : th.prog with
    | call op next => simp [Config.result, hi, hp] at h
    | ret a =>
      have heq : th.call = call ∧ a = r := by simpa [Config.result, hi, hp] using h
      exact ⟨th, List.mem_of_getElem? hi, heq.1, heq.2 ▸ hp⟩

inductive Label (Call Choice Tick : Type) where
  | spawn (call : Call)
  | act (i : Nat) (choice : Choice)
  | tick (t : Tick)

/-- Which calls may start, which operations may be answered in which way (given the world in which
the call started and the current one), and which moves the environment may make. -/
structure Policy (Op Call World Choice Tick : Type) where
  spawn : Call → Prop
  op : World → World → Op → Choice → Prop
  tick : World → Tick → Prop

abbrev Policy.free {Op Call World Choice Tick : Type} : Policy Op Call World Choice Tick where
  spawn := fun _ => True
  op := fun _ _ _ _ => True
  tick := fun _ _ => True

section Runs

variable {Op : Type} {Ans : Op → Type} {Call World Res Choice Tick : Type}
variable (M : Machine Ans World Choice Tick) (body : Call → Prog Ans Res)

def step (c : Config Ans Call World Res) :
    Label Call Choice Tick → Option (Config Ans Call World Res)
  | .spawn call => some { c with pool := c.pool ++ [⟨call, c.world, body call⟩] }
  | .act i ch =>
    match c.pool[i]? with
    | none => none
    | some th =>
      match th.prog with
      | .ret _ => none
      | .call op next =>
        match M.perform c.world op ch with
        | none => none
        | some (a, w) => some ⟨w, c.pool.set i { th with prog := next a }⟩
  | .tick t =>
    match M.tick c.world t with
    | none => none
    | some w => some { c with world := w }

def Allowed (P : Policy Op Call World Choice Tick) (c : Config Ans Call World Res) :
    Label Call Choice Tick → Prop
  | .spawn call => P.spawn call
  | .act i ch =>
    match c.pool[i]? with
    | none => True
    | some th =>
      match th.prog with
      | .ret _ => True
      | .call op _ => P.op th.born c.world op ch
  | .tick t => P.tick c.world t

inductive Reachable (P : Policy Op Call World Choice Tick) (w₀ : World) :
    Config Ans Call World Res → Prop where
  | start : Reachable P w₀ ⟨w₀, []⟩
  | tail {c c' : Config Ans Call World Res} {l : Label Call Choice Tick} :
      Reachable P w₀ c → Allowed P c l → step M body c l = some c' → Reachable P w₀ c'

variable {M body}
variable {P : Policy Op Call World Choice Tick} {c c' : Config Ans Call World Res} {w₀ : World}

theorem Allowed.op {i : Nat} {ch : Choice} {th : Thread Ans Call World Res} {op : Op}
    {next : Ans op → Prog Ans Res} (h : Allowed P c (.act i ch)) (hi : c.pool[i]? = some th)
    (hp : th.prog = .call op next) : P.op th.born c.world op ch := by
  simpa [Allowed, hi, hp] using h

section Execution

variable (M body)
variable (P : Policy Op Call World Choice Tick) [∀ call, Decidable (P.spawn call)]
variable [∀ w₀ w op ch, Decidable (P.op w₀ w op ch)] [∀ w t, Decidable (P.tick w t)]

instance (c : Config Ans Call World Res) (l : Label Call Choice Tick) : Decidable (Allowed P c l) :=
  match l with
  | .spawn call => inferInstanceAs (Decidable (P.spawn call))
  | .act i ch =>
    match hi : c.pool[i]? with
    | none => .isTrue (by simp [Allowed, hi])
    | some th =>
      match hp : th.prog with
      | .ret _ => .isTrue (by simp [Allowed, hi, hp])
      | .call op _ => decidable_of_iff (P.op th.born c.world op ch) (by simp [Allowed, hi, hp])
  | .tick t => inferInstanceAs (Decidable (P.tick c.world t))

def run : List (Label Call Choice Tick) → Config Ans Call World Res →
    Option (Config Ans Call World Res)
  | [], c => some c
  | l :: ls, c =>
    if Allowed P c l then
      match step M body c l with
      | none => none
      | some c' => run ls c'
    else none

variable {M body P}
variable {ls : List (Label Call Choice Tick)}

theorem Reachable.run {w₀ : World} :
    ∀ {c c' : Config Ans Call World Res}, Reachable M body P w₀ c →
      Concurrency.run M body P ls c = some c' → Reachable M body P w₀ c' := by
  induction ls with
  | nil =>
    intro c c' hc h
    have : c = c' := by simpa [Concurrency.run] using h
    simpa [this] using hc
  | cons l ls ih =>
    intro c c' hc h
    by_cases hall : Allowed P c l
    · cases hl : step M body c l with
      | none => simp [Concurrency.run, hl] at h
      | some d =>
        have hd : Concurrency.run M body P ls d = some c' := by
          simpa [Concurrency.run, hall, hl] using h
        exact ih (hc.tail hall hl) hd
    · simp [Concurrency.run, hall] at h

theorem exists_of_run {β : Type} {w₀ : World} {f : Config Ans Call World Res → β} {v : β}
    (h : (Concurrency.run M body P ls ⟨w₀, []⟩).map f = some v) :
    ∃ c, Reachable M body P w₀ c ∧ f c = v := by
  rcases Option.map_eq_some_iff.1 h with ⟨c, hrun, hv⟩
  exact ⟨c, Reachable.start.run hrun, hv⟩

end Execution

theorem step_act {i : Nat} {ch : Choice} (h : step M body c (.act i ch) = some c') :
    ∃ th op next a w, c.pool[i]? = some th ∧ th.prog = .call op next ∧
      M.perform c.world op ch = some (a, w) ∧
      c' = ⟨w, c.pool.set i { th with prog := next a }⟩ := by
  cases hi : c.pool[i]? with
  | none => simp [step, hi] at h
  | some th =>
    cases hp : th.prog with
    | ret r => simp [step, hi, hp] at h
    | call op next =>
      cases hperf : M.perform c.world op ch with
      | none => simp [step, hi, hp, hperf] at h
      | some aw =>
        rcases aw with ⟨a, w⟩
        refine ⟨th, op, next, a, w, rfl, hp, hperf, ?_⟩
        simpa [step, hi, hp, hperf] using h.symm

theorem step_tick {t : Tick} (h : step M body c (.tick t) = some c') :
    ∃ w, M.tick c.world t = some w ∧ c' = { c with world := w } := by
  cases ht : M.tick c.world t with
  | none => simp [step, ht] at h
  | some w => exact ⟨w, rfl, by simpa [step, ht] using h.symm⟩

theorem step_calls {l : Label Call Choice Tick} (h : step M body c l = some c') :
    ∀ th ∈ c.pool, ∃ th' ∈ c'.pool, th'.call = th.call := by
  intro th hth
  cases l with
  | spawn call =>
    cases h
    exact ⟨th, List.mem_append_left _ hth, rfl⟩
  | act i ch =>
    rcases step_act h with ⟨th₀, op, next, a, w, hi, _, _, rfl⟩
    rcases List.mem_iff_getElem?.1 hth with ⟨j, hj⟩
    by_cases hij : i = j
    · subst hij
      have hlt := (List.getElem?_eq_some_iff.1 hi).1
      have heq : th₀ = th := Option.some.inj (hi.symm.trans hj)
      exact ⟨{ th₀ with prog := next a }, List.mem_set hlt _, by rw [heq]⟩
    · exact ⟨th, List.mem_of_getElem? (by rw [List.getElem?_set_ne hij, hj]), rfl⟩
  | tick t =>
    rcases step_tick h with ⟨w, _, rfl⟩
    exact ⟨th, hth, rfl⟩

theorem Reachable.threads {T : Call → Prog Ans Res → Prop}
    (hbody : ∀ call, P.spawn call → T call (body call))
    (hnext : ∀ call op next a, T call (.call op next) → T call (next a))
    (h : Reachable M body P w₀ c) : ∀ th ∈ c.pool, T th.call th.prog := by
  induction h with
  | start => simp
  | @tail c c' l _ hall hstep ih =>
    cases l with
    | spawn call =>
      cases hstep
      intro th hth
      rcases List.mem_append.1 hth with hth | hth
      · exact ih th hth
      · rw [List.mem_singleton.1 hth]
        exact hbody call hall
    | act i ch =>
      rcases step_act hstep with ⟨th, op, next, a, w, hi, hp, _, rfl⟩
      intro th' hth'
      rcases List.mem_or_eq_of_mem_set hth' with hth' | rfl
      · exact ih th' hth'
      · exact hnext th.call op next a (hp ▸ ih th (List.mem_of_getElem? hi))
    | tick t =>
      rcases step_tick hstep with ⟨w, _, rfl⟩
      exact ih

theorem Reachable.always {T : (op : Op) → (Ans op → Prog Ans Res) → Prop}
    (hbody : ∀ call, Prog.Always T (body call)) (h : Reachable M body P w₀ c) :
    ∀ th ∈ c.pool, Prog.Always T th.prog :=
  h.threads (fun call _ => hbody call) fun _ _ _ a halways => halways.2 a

theorem Reachable.invariant {I : World → Prop}
    (hperform : ∀ {w : World} {op : Op} {ch : Choice} {a : Ans op} {w' : World}, I w →
      M.perform w op ch = some (a, w') → I w')
    (htick : ∀ {w : World} {t : Tick} {w' : World}, I w → M.tick w t = some w' → I w')
    (hstart : I w₀) (h : Reachable M body P w₀ c) : I c.world := by
  induction h with
  | start => exact hstart
  | @tail c c' l _ _ hstep ih =>
    cases l with
    | spawn call =>
      cases hstep
      exact ih
    | act i ch =>
      rcases step_act hstep with ⟨_, _, _, _, _, _, _, hp, rfl⟩
      exact hperform ih hp
    | tick t =>
      rcases step_tick hstep with ⟨_, ht, rfl⟩
      exact htick ih ht

theorem Reachable.mono {P' : Policy Op Call World Choice Tick}
    (hspawn : ∀ call, P.spawn call → P'.spawn call)
    (hop : ∀ w₀ w op ch, P.op w₀ w op ch → P'.op w₀ w op ch)
    (htick : ∀ w t, P.tick w t → P'.tick w t) (h : Reachable M body P w₀ c) :
    Reachable M body P' w₀ c := by
  induction h with
  | start => exact .start
  | @tail c c' l _ hall hstep ih =>
    refine ih.tail ?_ hstep
    cases l with
    | spawn call => exact hspawn call hall
    | act i ch =>
      cases hi : c.pool[i]? with
      | none => simp [Allowed, hi]
      | some th =>
        cases hp : th.prog with
        | ret r => simp [Allowed, hi, hp]
        | call op next => simpa [Allowed, hi, hp] using hop _ _ _ _ (hall.op hi hp)
    | tick t => exact htick _ _ hall

end Runs

/-! ## Rely/guarantee -/

/-- An invariant of the world, a preorder that bounds how the world moves between two operations of
a program, and a relation that bounds what its own operations do. -/
structure Discipline (World : Type) where
  Inv : World → Prop
  Rely : World → World → Prop
  Guar : World → World → Prop
  refl : ∀ w, Rely w w
  trans : ∀ {w₁ w₂ w₃}, Rely w₁ w₂ → Rely w₂ w₃ → Rely w₁ w₃

section Ensures

variable {Op : Type} {Ans : Op → Type} {Call World Res Choice Tick : Type} {α β : Type}
variable (M : Machine Ans World Choice Tick) (ok : World → Op → Choice → Prop)
variable (D : Discipline World)

/-- From `w` on, every operation of the program that `ok` allows keeps the invariant and respects
the guarantee, whatever the others do in between, and a returned value satisfies `Q`. -/
def Ensures (Q : α → World → Prop) : Prog Ans α → World → Prop
  | .ret a, w => Q a w
  | .call op next, w =>
    ∀ w₁, D.Rely w w₁ → D.Inv w₁ → ∀ ch a w₂, ok w₁ op ch → M.perform w₁ op ch = some (a, w₂) →
      D.Guar w₁ w₂ ∧ D.Inv w₂ ∧ Ensures Q (next a) w₂

variable {M ok D}
variable {Q : α → World → Prop} {w : World} {p : Prog Ans α}

theorem ensures_ret {a : α} (h : Q a w) : Ensures M ok D Q (.ret a) w :=
  h

theorem ensures_pure {a : α} (h : Q a w) : Ensures M ok D Q (pure a) w :=
  h

theorem ensures_bind {Q : β → World → Prop} {f : α → Prog Ans β} :
    ∀ {w : World}, Ensures M ok D (fun a w' => Ensures M ok D Q (f a) w') p w →
      Ensures M ok D Q (p >>= f) w := by
  induction p with
  | ret a =>
    intro w h
    exact h
  | call op next ih =>
    intro w h w₁ hr hi ch a w₂ hok hp
    rcases h w₁ hr hi ch a w₂ hok hp with ⟨hr', hi', hnext⟩
    exact ⟨hr', hi', ih a hnext⟩

variable {Q' : α → World → Prop}

theorem Ensures.mono (hQ : ∀ a w, Q a w → Q' a w) :
    ∀ {w : World}, Ensures M ok D Q p w → Ensures M ok D Q' p w := by
  induction p with
  | ret a =>
    intro w h
    exact hQ a w h
  | call op next ih =>
    intro w h w₁ hr hi ch a w₂ hok hp
    rcases h w₁ hr hi ch a w₂ hok hp with ⟨hr', hi', hnext⟩
    exact ⟨hr', hi', ih a hnext⟩

theorem Ensures.of_rely {w₀ : World} (hguar : ∀ {w w'}, D.Guar w w' → D.Rely w w')
    (hQ : ∀ a w, D.Rely w₀ w → D.Inv w → Q a w → Q' a w) :
    ∀ {w : World}, D.Rely w₀ w → D.Inv w → Ensures M ok D Q p w → Ensures M ok D Q' p w := by
  induction p with
  | ret a =>
    intro w h₀ hi h
    exact hQ a w h₀ hi h
  | call op next ih =>
    intro w h₀ _ h w₁ hr hi ch a w₂ hok hp
    rcases h w₁ hr hi ch a w₂ hok hp with ⟨hr', hi', hnext⟩
    exact ⟨hr', hi', ih a (D.trans (D.trans h₀ hr) (hguar hr')) hi' hnext⟩

theorem ensures_perform {Q : β → World → Prop} {op : Op} {f : Ans op → Prog Ans β}
    (h : ∀ w₁, D.Rely w w₁ → D.Inv w₁ → ∀ ch a w₂, ok w₁ op ch → M.perform w₁ op ch = some (a, w₂) →
      D.Guar w₁ w₂ ∧ D.Inv w₂ ∧ Ensures M ok D Q (f a) w₂) :
    Ensures M ok D Q (Prog.perform op >>= f) w :=
  h

/-- The invariant holds, and every thread is still on the way to its postcondition. -/
def Sound (M : Machine Ans World Choice Tick) (P : Policy Op Call World Choice Tick)
    (D : Discipline World) (Q : Call → World → Res → World → Prop)
    (c : Config Ans Call World Res) : Prop :=
  D.Inv c.world ∧ ∀ th ∈ c.pool, D.Rely th.born c.world ∧
    ∃ w, D.Rely w c.world ∧ Ensures M (P.op th.born) D (Q th.call th.born) th.prog w

variable {body : Call → Prog Ans Res} {P : Policy Op Call World Choice Tick} {w₀ : World}
variable {Q : Call → World → Res → World → Prop}

theorem Sound.keep {c : Config Ans Call World Res} (h : Sound M P D Q c) {w' : World}
    (hr : D.Rely c.world w') : ∀ th ∈ c.pool, D.Rely th.born w' ∧
      ∃ w, D.Rely w w' ∧ Ensures M (P.op th.born) D (Q th.call th.born) th.prog w := by
  intro th hth
  rcases h.2 th hth with ⟨hborn, w, hw, hens⟩
  exact ⟨D.trans hborn hr, w, D.trans hw hr, hens⟩

section Soundness

variable (hguar : ∀ {w w'}, D.Guar w w' → D.Rely w w')
variable (hspawn : ∀ call w, P.spawn call → D.Inv w →
  Ensures M (P.op w) D (Q call w) (body call) w)
variable (htick : ∀ w t w', P.tick w t → D.Inv w → M.tick w t = some w' → D.Rely w w' ∧ D.Inv w')
include hguar hspawn htick

variable {c : Config Ans Call World Res}

theorem Sound.step {c' : Config Ans Call World Res} {l : Label Call Choice Tick}
    (h : Sound M P D Q c) (hall : Allowed P c l) (hstep : step M body c l = some c') :
    D.Rely c.world c'.world ∧ Sound M P D Q c' := by
  cases l with
  | spawn call =>
    cases hstep
    refine ⟨D.refl _, h.1, ?_⟩
    intro th hth
    rcases List.mem_append.1 hth with hth | hth
    · exact h.keep (D.refl _) th hth
    · have hth : th = ⟨call, c.world, body call⟩ := by simpa using hth
      subst hth
      exact ⟨D.refl _, c.world, D.refl _, hspawn call c.world hall h.1⟩
  | act i ch =>
    rcases step_act hstep with ⟨th, op, next, a, w', hi, hp, hperf, rfl⟩
    rcases h.2 th (List.mem_of_getElem? hi) with ⟨hborn, w, hw, hens⟩
    rw [hp] at hens
    rcases hens c.world hw h.1 ch a w' (hall.op hi hp) hperf with ⟨hg', hi', hnext⟩
    have hr' := hguar hg'
    refine ⟨hr', hi', ?_⟩
    intro th' hth'
    rcases List.mem_or_eq_of_mem_set hth' with hth' | rfl
    · exact h.keep hr' th' hth'
    · exact ⟨D.trans hborn hr', w', D.refl _, hnext⟩
  | tick t =>
    rcases step_tick hstep with ⟨w', ht, rfl⟩
    rcases htick c.world t w' hall h.1 ht with ⟨hr', hi'⟩
    exact ⟨hr', hi', h.keep hr'⟩

theorem Reachable.sound (hstart : D.Inv w₀) (h : Reachable M body P w₀ c) : Sound M P D Q c := by
  induction h with
  | start => exact ⟨hstart, by simp⟩
  | tail _ hall hstep ih => exact (ih.step hguar hspawn htick hall hstep).2

theorem Reachable.rely (hstart : D.Inv w₀) (h : Reachable M body P w₀ c) : D.Rely w₀ c.world := by
  induction h with
  | start => exact D.refl _
  | tail hc hall hstep ih =>
    have hsound := hc.sound hguar hspawn htick hstart
    exact D.trans ih (hsound.step hguar hspawn htick hall hstep).1

theorem Sound.run [∀ call, Decidable (P.spawn call)] [∀ w₀ w op ch, Decidable (P.op w₀ w op ch)]
    [∀ w t, Decidable (P.tick w t)] {ls : List (Label Call Choice Tick)} :
    ∀ {c c' : Config Ans Call World Res}, Sound M P D Q c →
      Concurrency.run M body P ls c = some c' → D.Rely c.world c'.world := by
  induction ls with
  | nil =>
    intro c c' _ h
    have : c = c' := by simpa [Concurrency.run] using h
    exact this ▸ D.refl _
  | cons l ls ih =>
    intro c c' hc h
    by_cases hall : Allowed P c l
    · cases hl : Concurrency.step M body c l with
      | none => simp [Concurrency.run, hl] at h
      | some d =>
        rcases hc.step hguar hspawn htick hall hl with ⟨hr, hd⟩
        exact D.trans hr (ih hd (by simpa [Concurrency.run, hall, hl] using h))
    · simp [Concurrency.run, hall] at h

theorem Reachable.holds (hstart : D.Inv w₀)
    (hstable : ∀ call w r w₁ w₂, Q call w r w₁ → D.Rely w₁ w₂ → Q call w r w₂)
    (h : Reachable M body P w₀ c) :
    D.Inv c.world ∧ ∀ th ∈ c.pool, D.Rely th.born c.world ∧
      ∀ r, th.prog = .ret r → Q th.call th.born r c.world := by
  rcases h.sound hguar hspawn htick hstart with ⟨hinv, hpool⟩
  refine ⟨hinv, ?_⟩
  intro th hth
  rcases hpool th hth with ⟨hborn, w, hw, hens⟩
  refine ⟨hborn, ?_⟩
  intro r hr
  rw [hr] at hens
  exact hstable _ _ _ _ _ hens hw

end Soundness

end Ensures

end RelayPoint.Concurrency
