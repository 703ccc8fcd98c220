import Mathlib.Logic.Basic

/-!
# Prog — sequential programs over atomic operations

A program is a tree: it either returns, or performs one atomic operation and goes on with the
answer.  Nothing is said here about what an operation does; that is the business of a `Machine`
(see `Concurrency/Pool.lean`), which several programs share.
-/

namespace RelayPoint.Concurrency

inductive Prog {Op : Type} (Ans : Op → Type) (α : Type) : Type where
  | ret (a : α) : Prog Ans α
  | call (op : Op) (next : Ans op → Prog Ans α) : Prog Ans α

namespace Prog

variable {Op : Type} {Ans : Op → Type} {α β : Type}

protected def bind : Prog Ans α → (α → Prog Ans β) → Prog Ans β
  | .ret a, f => f a
  | .call op next, f => .call op fun a => (next a).bind f

instance : Monad (Prog Ans) where
  pure := .ret
  bind := Prog.bind

def perform (op : Op) : Prog Ans (Ans op) :=
  .call op .ret

theorem pure_eq (a : α) : (pure a : Prog Ans α) = .ret a :=
  rfl

theorem ret_bind (a : α) (f : α → Prog Ans β) : (Prog.ret a >>= f) = f a :=
  rfl

theorem call_bind (op : Op) (next : Ans op → Prog Ans α) (f : α → Prog Ans β) :
    (Prog.call op next >>= f) = .call op fun a => next a >>= f :=
  rfl

theorem perform_bind (op : Op) (f : Ans op → Prog Ans β) : (perform op >>= f) = .call op f :=
  rfl

/-- Every operation that the program may come to satisfies `P`, together with what follows it. -/
def Always (P : (op : Op) → (Ans op → Prog Ans α) → Prop) : Prog Ans α → Prop
  | .ret _ => True
  | .call op next => P op next ∧ ∀ a, Always P (next a)

theorem always_perform {P : (op : Op) → (Ans op → Prog Ans β) → Prop} {op : Op}
    {f : Ans op → Prog Ans β} (hop : P op f) (hnext : ∀ a, Always P (f a)) :
    Always P (perform op >>= f) :=
  ⟨hop, hnext⟩

section Within

variable (P : Op → Prop) (A : (op : Op) → Ans op → Prop)

/-- As long as the answers satisfy `A`, every operation satisfies `P` and the result satisfies `Q`. -/
def Within (Q : α → Prop) : Prog Ans α → Prop
  | .ret a => Q a
  | .call op next => P op ∧ ∀ a, A op a → Within Q (next a)

variable {P A}

theorem within_pure {Q : α → Prop} {a : α} (h : Q a) : Within P A Q (pure a) :=
  h

theorem within_perform {Q : β → Prop} {op : Op} {f : Ans op → Prog Ans β} (hop : P op)
    (hnext : ∀ a, A op a → Within P A Q (f a)) : Within P A Q (perform op >>= f) :=
  ⟨hop, hnext⟩

theorem within_bind {Q : β → Prop} {R : α → Prop} {p : Prog Ans α} {f : α → Prog Ans β}
    (hp : Within P A R p) (hf : ∀ a, R a → Within P A Q (f a)) : Within P A Q (p >>= f) := by
  induction p with
  | ret a => exact hf a hp
  | call op next ih => exact ⟨hp.1, fun a ha => ih a (hp.2 a ha)⟩

theorem Within.mono {Q : α → Prop} {P' : Op → Prop} {A' : (op : Op) → Ans op → Prop}
    (hP : ∀ op, P op → P' op) (hA : ∀ op a, A' op a → A op a) {p : Prog Ans α}
    (h : Within P A Q p) : Within P' A' Q p := by
  induction p with
  | ret a => exact h
  | call op next ih => exact ⟨hP op h.1, fun a ha => ih a (h.2 a (hA op a ha))⟩

end Within

end Prog

end RelayPoint.Concurrency
