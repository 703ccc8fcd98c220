import Mathlib.Data.List.DropRight
import Mathlib.Data.List.Pairwise

/-!
# Register — the history of one key in a store with revisions

A key-value store numbers its writes.  A value is put under a key either because nothing is there
(`create`) or over a given revision (`update`); a delete leaves a marker, which is numbered too; and
what was written last may expire.  A register is the history of one key.
-/

namespace RelayPoint

inductive Change (α : Type) where
  | put (value : α) (rev : Nat)
  | marker (rev : Nat)
  | expired
  deriving DecidableEq

def Change.rev? {α : Type} : Change α → Option Nat
  | .put _ rev => some rev
  | .marker rev => some rev
  | .expired => none

structure Register (α : Type) where
  changes : List (Change α)
  increasing : (0 :: changes.filterMap Change.rev?).Pairwise (· < ·)

namespace Register

variable {α : Type}

def empty : Register α :=
  ⟨[], List.pairwise_singleton _ _⟩

def top (r : Register α) : Nat :=
  ((r.changes.filterMap Change.rev?).getLast?).getD 0

theorem le_top (r : Register α) {n : Nat} (h : n ∈ r.changes.filterMap Change.rev?) :
    n ≤ r.top := by
  have hinc := (List.pairwise_cons.1 r.increasing).2
  unfold top
  rcases List.eq_nil_or_concat' (r.changes.filterMap Change.rev?) with hnil | ⟨init, last, heq⟩
  · rw [hnil] at h
    cases h
  · rw [heq] at h hinc
    simp only [heq, List.getLast?_append]
    rcases List.mem_append.1 h with h | h
    · exact Nat.le_of_lt ((List.pairwise_append.1 hinc).2.2 n h last (by simp))
    · exact Nat.le_of_eq (List.mem_singleton.1 h)

theorem increasing_append (r : Register α) {c : Change α}
    (h : ∀ rev, c.rev? = some rev → r.top < rev) :
    (0 :: (r.changes ++ [c]).filterMap Change.rev?).Pairwise (· < ·) := by
  rw [List.filterMap_append]
  refine List.pairwise_append.2 ⟨r.increasing, ?_, ?_⟩
  · cases hc : c.rev? <;> simp [hc]
  · intro n hn rev hrev
    have hc : c.rev? = some rev := by simpa using hrev
    have hle : n ≤ r.top := by
      rcases List.mem_cons.1 hn with rfl | hn
      · exact Nat.zero_le _
      · exact r.le_top hn
    exact Nat.lt_of_le_of_lt hle (h rev hc)

def append (r : Register α) (c : Change α) (h : ∀ rev, c.rev? = some rev → r.top < rev) :
    Register α :=
  ⟨r.changes ++ [c], r.increasing_append h⟩

theorem lt_next (r : Register α) (gap : Nat) {rev : Nat} (h : some (r.top + 1 + gap) = some rev) :
    r.top < rev := by
  cases h
  omega

def put (r : Register α) (value : α) (gap : Nat) : Nat × Register α :=
  (r.top + 1 + gap, r.append (.put value (r.top + 1 + gap)) fun _ h => r.lt_next gap h)

def entry (r : Register α) : Option (α × Nat) :=
  match r.changes.getLast? with
  | some (.put value rev) => some (value, rev)
  | some (.marker _) | some .expired | none => none

def latest (r : Register α) : Option Nat :=
  r.changes.getLast?.bind Change.rev?

def create (r : Register α) (value : α) (gap : Nat) : Option (Nat × Register α) :=
  match r.entry with
  | some _ => none
  | none => some (r.put value gap)

def update (r : Register α) (value : α) (expected gap : Nat) : Option (Nat × Register α) :=
  if r.latest = some expected then some (r.put value gap) else none

def delete (r : Register α) (gap : Nat) : Register α :=
  r.append (.marker (r.top + 1 + gap)) fun _ h => r.lt_next gap h

def expire (r : Register α) : Option (Register α) :=
  if r.latest.isSome then some (r.append .expired fun _ h => nomatch h) else none

/-! ## What the operations add -/

section Laws

variable {r r' : Register α} {value : α} {rev expected gap : Nat}

@[simp] theorem changes_append (c : Change α) (h : ∀ rev, c.rev? = some rev → r.top < rev) :
    (r.append c h).changes = r.changes ++ [c] :=
  rfl

theorem changes_put : (r.put value gap).2.changes = r.changes ++ [.put value (r.put value gap).1] :=
  rfl

theorem create_some (h : r.create value gap = some (rev, r')) :
    r'.changes = r.changes ++ [.put value rev] := by
  unfold create at h
  split at h
  · cases h
  · cases h
    exact changes_put

theorem update_some (h : r.update value expected gap = some (rev, r')) :
    r.latest = some expected ∧ r'.changes = r.changes ++ [.put value rev] := by
  unfold update at h
  split at h
  · next hlatest =>
      cases h
      exact ⟨hlatest, changes_put⟩
  · cases h

theorem expire_some (h : r.expire = some r') : r'.changes = r.changes ++ [.expired] := by
  unfold expire at h
  split at h
  · cases h
    rfl
  · cases h

theorem mem_of_entry (h : r.entry = some (value, rev)) : .put value rev ∈ r.changes := by
  unfold entry at h
  split at h
  · next hlast =>
      cases h
      exact List.mem_of_getLast? hlast
  all_goals cases h

theorem eq_of_rev {c c' : Change α} (hc : c ∈ r.changes) (hc' : c' ∈ r.changes)
    (hrev : c.rev? = some rev) (hrev' : c'.rev? = some rev) : c = c' := by
  have hpairs : r.changes.Pairwise fun c c' => ∀ n, c.rev? = some n → c'.rev? = some n → c = c' := by
    refine (List.pairwise_filterMap.1 (List.pairwise_cons.1 r.increasing).2).imp ?_
    intro c c' hlt n hn hn'
    exact absurd (hlt n hn n hn') (Nat.lt_irrefl n)
  have : Std.Symm fun c c' : Change α => ∀ n, c.rev? = some n → c'.rev? = some n → c = c' :=
    ⟨fun c c' h n hn hn' => (h n hn' hn).symm⟩
  exact hpairs.forall_of_forall (fun _ _ _ _ _ => rfl) hc hc' rev hrev hrev'

theorem update_zero : r.update value 0 gap = none := by
  refine if_neg ?_
  intro hlatest
  rcases Option.bind_eq_some_iff.1 hlatest with ⟨c, hlast, hrev⟩
  have hmem : 0 ∈ r.changes.filterMap Change.rev? :=
    List.mem_filterMap.2 ⟨c, List.mem_of_getLast? hlast, hrev⟩
  exact Nat.lt_irrefl 0 ((List.pairwise_cons.1 r.increasing).1 0 hmem)

theorem last_of_update {known : α} (hknown : .put known expected ∈ r.changes)
    (h : r.update value expected gap = some (rev, r')) :
    ∃ before, r.changes = before ++ [.put known expected] := by
  rcases Option.bind_eq_some_iff.1 (update_some h).1 with ⟨c, hlast, hrev⟩
  have hc : c = .put known expected := eq_of_rev (List.mem_of_getLast? hlast) hknown hrev rfl
  rw [hc] at hlast
  exact List.getLast?_eq_some_iff.1 hlast

end Laws

end Register

end RelayPoint
