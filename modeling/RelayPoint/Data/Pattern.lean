import Mathlib.Data.List.Basic

/-!
# Pattern — token patterns with wildcards

A pattern is a list of tokens; it is matched against a list of plain tokens.  `any` stands for one
token and `rest` for one or more, up to the end.  A permission has an allow list and a deny list, and
the deny list outranks the allow list.
-/

namespace RelayPoint.Pattern

inductive Token (α : Type) where
  | literal (a : α)
  | any
  | rest
  deriving DecidableEq, Repr

variable {α : Type}

def Matches : List (Token α) → List α → Prop
  | [], s => s = []
  | .literal a :: p, b :: s => a = b ∧ Matches p s
  | .any :: p, _ :: s => Matches p s
  | .rest :: _, s => s ≠ []
  | _ :: _, [] => False

def decideMatches [DecidableEq α] : (p : List (Token α)) → (s : List α) → Decidable (Matches p s)
  | [], [] => .isTrue rfl
  | [], _ :: _ => .isFalse (by simp [Matches])
  | .literal a :: p, b :: s =>
    have := decideMatches p s
    inferInstanceAs (Decidable (a = b ∧ Matches p s))
  | .any :: p, _ :: s => decideMatches p s
  | .rest :: _, [] => .isFalse (by simp [Matches])
  | .rest :: _, _ :: _ => .isTrue (by simp [Matches])
  | .literal _ :: _, [] => .isFalse (by simp [Matches])
  | .any :: _, [] => .isFalse (by simp [Matches])

instance [DecidableEq α] (p : List (Token α)) (s : List α) : Decidable (Matches p s) :=
  decideMatches p s

variable {s : List α} {p : List (Token α)}

@[simp] theorem matches_nil : Matches [] s ↔ s = [] := by
  simp [Matches]

@[simp] theorem matches_literal {a : α} :
    Matches (.literal a :: p) s ↔ ∃ s', s = a :: s' ∧ Matches p s' := by
  cases s with
  | nil => simp [Matches]
  | cons b s =>
    constructor
    · rintro ⟨rfl, h⟩
      exact ⟨s, rfl, h⟩
    · rintro ⟨s', hs, h⟩
      cases hs
      exact ⟨rfl, h⟩

@[simp] theorem matches_any : Matches (.any :: p) s ↔ ∃ b s', s = b :: s' ∧ Matches p s' := by
  cases s with
  | nil => simp [Matches]
  | cons b s =>
    constructor
    · intro h
      exact ⟨b, s, rfl, h⟩
    · rintro ⟨b', s', hs, h⟩
      cases hs
      exact h

@[simp] theorem matches_rest : Matches (.rest :: p) s ↔ s ≠ [] := by
  cases s with
  | nil | cons b s => simp [Matches]

/-! ## Permissions -/

structure Permission (α : Type) where
  allow : List (List (Token α))
  deny : List (List (Token α))

def Permission.grants (p : Permission α) (s : List α) : Prop :=
  (p.allow = [] ∨ ∃ q ∈ p.allow, Matches q s) ∧ ∀ q ∈ p.deny, ¬ Matches q s

instance [DecidableEq α] (p : Permission α) (s : List α) : Decidable (p.grants s) :=
  inferInstanceAs (Decidable ((p.allow = [] ∨ ∃ q ∈ p.allow, Matches q s) ∧
    ∀ q ∈ p.deny, ¬ Matches q s))

end RelayPoint.Pattern
