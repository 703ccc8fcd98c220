import Mathlib.Data.List.Nodup
import RelayPoint.Journal.Log

/-!
# Broker — compare-and-append with message deduplication

A broker keeps one stream and a window of message ids it still remembers, each with the stream
sequence of the original.  An offer names the last sequence the writer believes its subject has:

* a remembered id is acknowledged as a duplicate, with the sequence of the original, and adds
  nothing;
* otherwise the message is committed exactly when the expectation matches.

Whether the id or the expectation is looked at first is left to the caller of `offer`.  Ids may be
forgotten (`forget`); results that need a broker that never forgets assume `Remembers`.
-/

namespace RelayPoint.Journal

structure Broker (σ ι ε : Type) where
  stream : List (Msg σ ι ε)
  window : List (ι × Nat)

inductive Ack where
  | ok (duplicate : Bool) (seq : Nat)
  | conflict
  deriving DecidableEq, Repr

namespace Broker

variable {σ ι ε : Type}

def empty : Broker σ ι ε where
  stream := []
  window := []

def commit (b : Broker σ ι ε) (m : Msg σ ι ε) : Broker σ ι ε where
  stream := b.stream ++ [m]
  window := (m.id, b.stream.length + 1) :: b.window

variable {b b' : Broker σ ι ε} {m : Msg σ ι ε} {expected : Nat} {first : Bool} {ack : Ack}

/-! ## The window points into the stream -/

def WindowSound (b : Broker σ ι ε) : Prop :=
  ∀ id n, (id, n) ∈ b.window → ∃ m, 0 < n ∧ b.stream[n - 1]? = some m ∧ m.id = id

theorem windowSound_empty : WindowSound (empty : Broker σ ι ε) := by
  intro id n h
  simp [empty] at h

theorem WindowSound.commit (h : WindowSound b) (m : Msg σ ι ε) : WindowSound (b.commit m) := by
  intro id n hmem
  rcases List.mem_cons.1 hmem with heq | hmem
  · cases heq
    exact ⟨m, by omega, by simp [Broker.commit], rfl⟩
  · rcases h id n hmem with ⟨m', hpos, hget, hid⟩
    have hlt : n - 1 < b.stream.length := (List.getElem?_eq_some_iff.1 hget).1
    refine ⟨m', hpos, ?_, hid⟩
    rw [Broker.commit, List.getElem?_append_left hlt]
    exact hget

def UniqueIds (b : Broker σ ι ε) : Prop :=
  (b.stream.map Msg.id).Nodup

theorem uniqueIds_empty : UniqueIds (empty : Broker σ ι ε) := by
  simp [UniqueIds, empty]

theorem UniqueIds.eq_of_id (h : UniqueIds b) {m₁ m₂ : Msg σ ι ε} (h₁ : m₁ ∈ b.stream)
    (h₂ : m₂ ∈ b.stream) (hid : m₁.id = m₂.id) : m₁ = m₂ :=
  List.inj_on_of_nodup_map h h₁ h₂ hid

section Window

variable [DecidableEq ι]

def forget (b : Broker σ ι ε) (id : ι) : Broker σ ι ε :=
  { b with window := b.window.filter fun p => p.1 ≠ id }

theorem WindowSound.forget (h : WindowSound b) (id : ι) : WindowSound (b.forget id) := by
  intro id' n hmem
  exact h id' n (List.mem_of_mem_filter hmem)

theorem WindowSound.of_lookup (h : WindowSound b) {id : ι} {n : Nat}
    (hl : b.window.lookup id = some n) : ∃ m, 0 < n ∧ b.stream[n - 1]? = some m ∧ m.id = id := by
  rcases List.lookup_eq_some_iff.1 hl with ⟨l₁, l₂, heq, _⟩
  exact h id n (by rw [heq]; simp)

/-! ## A broker that never forgets -/

def Remembers (b : Broker σ ι ε) : Prop :=
  ∀ m ∈ b.stream, b.window.lookup m.id ≠ none

theorem remembers_empty : Remembers (empty : Broker σ ι ε) := by
  intro m h
  simp [empty] at h

theorem Remembers.commit (h : Remembers b) (m : Msg σ ι ε) : Remembers (b.commit m) := by
  intro m' hmem
  rcases List.mem_append.1 hmem with hmem | hmem
  · by_cases hid : m'.id = m.id
    · simp [Broker.commit, hid]
    · have hne : (m'.id == m.id) = false := by simpa using hid
      simpa [Broker.commit, List.lookup_cons, hne] using h m' hmem
  · have hm : m' = m := by simpa using hmem
    simp [Broker.commit, hm]

theorem Remembers.fresh (h : Remembers b) (hl : b.window.lookup m.id = none) :
    ∀ m' ∈ b.stream, m'.id ≠ m.id := by
  intro m' hmem heq
  exact h m' hmem (by rw [heq]; exact hl)

theorem UniqueIds.commit (h : UniqueIds b) (hr : Remembers b)
    (hl : b.window.lookup m.id = none) : UniqueIds (b.commit m) := by
  have hfresh := hr.fresh hl
  simp only [UniqueIds, Broker.commit, List.map_append]
  refine List.nodup_append.2 ⟨h, by simp, ?_⟩
  intro a ha b' hb' hab
  have hb' : b' = m.id := by simpa using hb'
  rcases List.mem_map.1 ha with ⟨m', hm', hid⟩
  exact hfresh m' hm' (by rw [hid, hab, hb'])

end Window

/-! ## Offers -/

section Offer

variable [DecidableEq σ] [DecidableEq ι]

def offer (b : Broker σ ι ε) (dedupFirst : Bool) (m : Msg σ ι ε) (expected : Nat) :
    Ack × Broker σ ι ε :=
  let fits : Bool := lastSeq m.subject b.stream = expected
  match b.window.lookup m.id with
  | some n => if dedupFirst || fits then (.ok true n, b) else (.conflict, b)
  | none => if fits then (.ok false (b.stream.length + 1), b.commit m) else (.conflict, b)

theorem offer_of_fresh (hnone : b.window.lookup m.id = none)
    (hlast : lastSeq m.subject b.stream = expected) :
    b.offer first m expected = (.ok false (b.stream.length + 1), b.commit m) := by
  simp [offer, hnone, hlast]

theorem offer_cases (h : b.offer first m expected = (ack, b')) :
    (∃ n, b.window.lookup m.id = some n ∧ (first = true ∨ lastSeq m.subject b.stream = expected) ∧
        ack = .ok true n ∧ b' = b) ∨
      (ack = .conflict ∧ b' = b) ∨
        (b.window.lookup m.id = none ∧ lastSeq m.subject b.stream = expected ∧
          ack = .ok false (b.stream.length + 1) ∧ b' = b.commit m) := by
  unfold offer at h
  cases hw : b.window.lookup m.id with
  | some n =>
    simp only [hw] at h
    split at h
    · rename_i hacked
      cases h
      exact .inl ⟨n, rfl, by simpa using hacked, rfl, rfl⟩
    · cases h
      exact .inr (.inl ⟨rfl, rfl⟩)
  | none =>
    simp only [hw] at h
    split at h
    · rename_i hfits
      cases h
      exact .inr (.inr ⟨rfl, by simpa using hfits, rfl, rfl⟩)
    · cases h
      exact .inr (.inl ⟨rfl, rfl⟩)

end Offer

end Broker

end RelayPoint.Journal
