import RelayPoint.Concurrency.Pool

/-!
# Serial — total correctness of a program that runs alone

`Ensures` speaks about programs among others and says nothing about a program that gets stuck.
`Serves` is the other half: nobody interferes, the environment answers only as `ok` allows, and the
program takes every such answer, comes to an end and satisfies its postcondition there.
-/

namespace RelayPoint.Concurrency

section Serial

variable {Op : Type} {Ans : Op → Type} {World Choice Tick : Type} {α β : Type}
variable (M : Machine Ans World Choice Tick) (ok : World → Op → Choice → Prop)

def Serves (Q : α → World → Prop) : Prog Ans α → World → Prop
  | .ret a, w => Q a w
  | .call op next, w =>
    ∀ ch, ok w op ch → ∃ a w', M.perform w op ch = some (a, w') ∧ Serves Q (next a) w'

variable {M ok}
variable {Q : α → World → Prop} {a : α} {w : World} {op : Op} {f : Ans op → Prog Ans β}
variable {p : Prog Ans α} {P : World → Prop}

theorem serves_pure (h : Q a w) : Serves M ok Q (pure a) w :=
  h

theorem serves_perform {Q : β → World → Prop}
    (h : ∀ ch, ok w op ch → ∃ a w', M.perform w op ch = some (a, w') ∧ Serves M ok Q (f a) w') :
    Serves M ok Q (Prog.perform op >>= f) w :=
  h

theorem serves_step {Q : β → World → Prop} {ch : Choice} {a : Ans op} {w' : World}
    (honly : ∀ ch', ok w op ch' → ch' = ch) (hp : M.perform w op ch = some (a, w'))
    (h : Serves M ok Q (f a) w') : Serves M ok Q (Prog.perform op >>= f) w := by
  intro ch' hok
  obtain rfl := honly ch' hok
  exact ⟨a, w', hp, h⟩

theorem serves_bind {Q : β → World → Prop} {f : α → Prog Ans β} :
    ∀ {w : World}, Serves M ok (fun a w' => Serves M ok Q (f a) w') p w →
      Serves M ok Q (p >>= f) w := by
  induction p with
  | ret a =>
    intro w h
    exact h
  | call op next ih =>
    intro w h ch hok
    rcases h ch hok with ⟨a, w', hp, hnext⟩
    exact ⟨a, w', hp, ih a hnext⟩

variable {Q' : α → World → Prop}

theorem Serves.mono (hQ : ∀ a w, Q a w → Q' a w) :
    ∀ {w : World}, Serves M ok Q p w → Serves M ok Q' p w := by
  induction p with
  | ret a =>
    intro w h
    exact hQ a w h
  | call op next ih =>
    intro w h ch hok
    rcases h ch hok with ⟨a, w', hp, hnext⟩
    exact ⟨a, w', hp, ih a hnext⟩

/-! ## A condition on the way -/

variable (M ok)

/-- `Serves`, and `P` holds whenever the program is about to perform an operation: operations are
atomic, so these worlds are all that anybody else can see of a program before it ends. -/
def ServesThrough (P : World → Prop) (Q : α → World → Prop) : Prog Ans α → World → Prop
  | .ret a, w => Q a w
  | .call op next, w =>
    P w ∧ ∀ ch, ok w op ch → ∃ a w', M.perform w op ch = some (a, w') ∧
      ServesThrough P Q (next a) w'

variable {M ok}

theorem servesThrough_pure (h : Q a w) : ServesThrough M ok P Q (pure a) w :=
  h

theorem servesThrough_perform {Q : β → World → Prop} (hP : P w)
    (h : ∀ ch, ok w op ch → ∃ a w', M.perform w op ch = some (a, w') ∧
      ServesThrough M ok P Q (f a) w') : ServesThrough M ok P Q (Prog.perform op >>= f) w :=
  ⟨hP, h⟩

theorem servesThrough_bind {Q : β → World → Prop} {f : α → Prog Ans β} : ∀ {w : World},
      ServesThrough M ok P (fun a w' => ServesThrough M ok P Q (f a) w') p w →
        ServesThrough M ok P Q (p >>= f) w := by
  induction p with
  | ret a =>
    intro w h
    exact h
  | call op next ih =>
    intro w h
    refine ⟨h.1, fun ch hok => ?_⟩
    rcases h.2 ch hok with ⟨a, w', hp, hnext⟩
    exact ⟨a, w', hp, ih a hnext⟩

theorem ServesThrough.mono {P' : World → Prop} (hP : ∀ w, P w → P' w) (hQ : ∀ a w, Q a w → Q' a w) :
    ∀ {w : World},
      ServesThrough M ok P Q p w → ServesThrough M ok P' Q' p w := by
  induction p with
  | ret a =>
    intro w h
    exact hQ a w h
  | call op next ih =>
    intro w h
    refine ⟨hP w h.1, fun ch hok => ?_⟩
    rcases h.2 ch hok with ⟨a, w', hp, hnext⟩
    exact ⟨a, w', hp, ih a hnext⟩

theorem ServesThrough.serves : ∀ {w : World}, ServesThrough M ok P Q p w → Serves M ok Q p w := by
  induction p with
  | ret a =>
    intro w h
    exact h
  | call op next ih =>
    intro w h ch hok
    rcases h.2 ch hok with ⟨a, w', hp, hnext⟩
    exact ⟨a, w', hp, ih a hnext⟩

/-! ## Partial correctness -/

variable (M ok)

/-- Every allowed run of the program, alone and from `w`, ends in a value, a world and a list of
choices that satisfy `Q`. -/
def Plays (Q : List Choice → α → World → Prop) : Prog Ans α → World → Prop
  | .ret a, w => Q [] a w
  | .call op next, w => ∀ ch a w', ok w op ch → M.perform w op ch = some (a, w') →
      Plays (fun chs => Q (ch :: chs)) (next a) w'

variable {M ok}

theorem plays_pure {Q : List Choice → α → World → Prop} (h : Q [] a w) : Plays M ok Q (pure a) w :=
  h

theorem plays_perform {Q : List Choice → β → World → Prop}
    (h : ∀ ch a w', ok w op ch → M.perform w op ch = some (a, w') →
      Plays M ok (fun chs => Q (ch :: chs)) (f a) w') : Plays M ok Q (Prog.perform op >>= f) w :=
  h

theorem Plays.mono : ∀ {Q Q' : List Choice → α → World → Prop} {w : World},
    (∀ chs a w, Q chs a w → Q' chs a w) → Plays M ok Q p w → Plays M ok Q' p w := by
  induction p with
  | ret a =>
    intro Q Q' w hQ h
    exact hQ [] a w h
  | call op next ih =>
    intro Q Q' w hQ h ch a w' hok hp
    exact ih a (fun chs => hQ (ch :: chs)) (h ch a w' hok hp)

theorem Plays.restrict {ok' : World → Op → Choice → Prop}
    (hok : ∀ w op ch, ok' w op ch → ok w op ch) :
    ∀ {Q : List Choice → α → World → Prop} {w : World},
      Plays M ok Q p w → Plays M ok' Q p w := by
  induction p with
  | ret a =>
    intro Q w h
    exact h
  | call op next ih =>
    intro Q w h ch a w' hch hp
    exact ih a (h ch a w' (hok w op ch hch) hp)

theorem plays_bind {f : α → Prog Ans β} : ∀ {Q : List Choice → β → World → Prop}
    {w : World}, Plays M ok (fun chs a w' => Plays M ok (fun chs' => Q (chs ++ chs')) (f a) w') p w →
      Plays M ok Q (p >>= f) w := by
  induction p with
  | ret a =>
    intro Q w h
    exact h
  | call op next ih =>
    intro Q w h ch a w' hok hp
    exact ih a (h ch a w' hok hp)

section Exec

variable (M ok) [∀ w op ch, Decidable (ok w op ch)]

def exec : List Choice → Prog Ans α → World → Option (α × World)
  | [], .ret a, w => some (a, w)
  | ch :: chs, .call op next, w =>
    if ok w op ch then
      match M.perform w op ch with
      | none => none
      | some (a, w') => exec chs (next a) w'
    else none
  | _, _, _ => none

variable {M ok}
variable {chs : List Choice} {Q : α → World → Prop} {p : Prog Ans α} {w' : World} {a : α}

theorem exec_induction {J : Prog Ans α → World → Prop}
    (hnext : ∀ {op : Op} {next : Ans op → Prog Ans α} {w : World} {ch : Choice} {a : Ans op}
      {w' : World}, J (.call op next) w → ok w op ch → M.perform w op ch = some (a, w') →
        J (next a) w') : ∀ {p : Prog Ans α} {w : World} {a : α} {w' : World}, J p w →
      exec M ok chs p w = some (a, w') → J (.ret a) w' := by
  induction chs with
  | nil =>
    intro p w a w' h hrun
    cases p with
    | ret b =>
      have heq : b = a ∧ w = w' := by simpa [exec] using hrun
      exact heq.1 ▸ heq.2 ▸ h
    | call op next => simp [exec] at hrun
  | cons ch chs ih =>
    intro p w a w' h hrun
    cases p with
    | ret b => simp [exec] at hrun
    | call op next =>
      by_cases hok : ok w op ch
      · cases hp : M.perform w op ch with
        | none => simp [exec, hp] at hrun
        | some aw => exact ih (hnext h hok hp) (by simpa [exec, hok, hp] using hrun)
      · simp [exec, hok] at hrun

theorem Serves.exec {w : World} (h : Serves M ok Q p w)
    (hrun : Concurrency.exec M ok chs p w = some (a, w')) : Q a w' := by
  refine exec_induction ?_ h hrun
  intro op next w ch a w' h hok hp
  rcases h ch hok with ⟨b, w₁, hp', hnext⟩
  cases hp.symm.trans hp'
  exact hnext

theorem Plays.exec : ∀ {Q : List Choice → α → World → Prop} {p : Prog Ans α}
    {w w' : World} {a : α}, Plays M ok Q p w → Concurrency.exec M ok chs p w = some (a, w') →
      Q chs a w' := by
  induction chs with
  | nil =>
    intro Q p w w' a h hrun
    cases p with
    | ret b =>
      have heq : b = a ∧ w = w' := by simpa [Concurrency.exec] using hrun
      exact heq.1 ▸ heq.2 ▸ h
    | call op next => simp [Concurrency.exec] at hrun
  | cons ch chs ih =>
    intro Q p w w' a h hrun
    cases p with
    | ret b => simp [Concurrency.exec] at hrun
    | call op next =>
      by_cases hok : ok w op ch
      · cases hp : M.perform w op ch with
        | none => simp [Concurrency.exec, hp] at hrun
        | some aw => exact ih (h ch aw.1 aw.2 hok hp) (by simpa [Concurrency.exec, hok, hp] using hrun)
      · simp [Concurrency.exec, hok] at hrun

variable {D : Discipline World} {ok' : World → Op → Choice → Prop}

theorem Ensures.exec (hok : ∀ w op ch, ok w op ch → ok' w op ch) {w : World}
    (h : Ensures M ok' D Q p w) (hinv : D.Inv w)
    (hrun : Concurrency.exec M ok chs p w = some (a, w')) : D.Inv w' ∧ Q a w' := by
  have hstep : ∀ {op : Op} {next : Ans op → Prog Ans α} {w : World} {ch : Choice} {a : Ans op}
      {w' : World}, D.Inv w ∧ Ensures M ok' D Q (.call op next) w → ok w op ch →
        M.perform w op ch = some (a, w') → D.Inv w' ∧ Ensures M ok' D Q (next a) w' := by
    intro op next w ch a w' h hch hp
    exact (h.2 w (D.refl w) h.1 ch a w' (hok w op ch hch) hp).2
  exact exec_induction (J := fun p w => D.Inv w ∧ Ensures M ok' D Q p w) hstep ⟨hinv, h⟩ hrun

theorem exec_within {P : Op → Prop} {A : (op : Op) → Ans op → Prop} {R : α → Prop}
    {I : World → Prop} (hok : ∀ w op ch, ok w op ch → ok' w op ch)
    (hstep : ∀ {w : World} {op : Op} {ch : Choice} {a : Ans op} {w' : World}, D.Inv w → I w →
      P op → M.perform w op ch = some (a, w') → A op a ∧ I w') {w : World}
    (hens : Ensures M ok' D Q p w) (hwithin : Prog.Within P A R p) (hinv : D.Inv w) (hI : I w)
    (hrun : exec M ok chs p w = some (a, w')) : D.Inv w' ∧ I w' := by
  have hnext : ∀ {op : Op} {next : Ans op → Prog Ans α} {w : World} {ch : Choice} {a : Ans op}
      {w' : World}, (D.Inv w ∧ I w) ∧ Ensures M ok' D Q (.call op next) w ∧
        Prog.Within P A R (.call op next) → ok w op ch → M.perform w op ch = some (a, w') →
        (D.Inv w' ∧ I w') ∧ Ensures M ok' D Q (next a) w' ∧ Prog.Within P A R (next a) := by
    rintro op next w ch a w' ⟨⟨hinv, hI⟩, hens, hwithin⟩ hch hp
    rcases hens w (D.refl w) hinv ch a w' (hok w op ch hch) hp with ⟨_, hinv', hens'⟩
    rcases hstep hinv hI hwithin.1 hp with ⟨ha, hI'⟩
    exact ⟨⟨hinv', hI'⟩, hens', hwithin.2 a ha⟩
  exact (exec_induction (J := fun p w => (D.Inv w ∧ I w) ∧ Ensures M ok' D Q p w ∧
    Prog.Within P A R p) hnext ⟨⟨hinv, hI⟩, hens, hwithin⟩ hrun).1

end Exec

end Serial

end RelayPoint.Concurrency
