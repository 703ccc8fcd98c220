import Mathlib.Data.List.Infix
import Mathlib.Data.List.Pairwise

/-!
# Table — relations with uniqueness constraints

A table is a list of rows in insertion order together with a proof that no two of them violate a
uniqueness constraint.  `Clash r s` says that the rows `r` and `s` agree on the columns of one of
the constraints; a primary key is one such constraint.
-/

namespace RelayPoint

structure Table (ρ : Type) (Clash : ρ → ρ → Prop) where
  rows : List ρ
  unique : rows.Pairwise fun r s => ¬ Clash r s

namespace Table

variable {ρ : Type} {Clash : ρ → ρ → Prop}

def empty : Table ρ Clash :=
  ⟨[], List.Pairwise.nil⟩

instance : Inhabited (Table ρ Clash) :=
  ⟨empty⟩

section Insert

variable [DecidableRel Clash]

def insert (t : Table ρ Clash) (r : ρ) : Option (Table ρ Clash) :=
  if h : ∀ s ∈ t.rows, ¬ Clash s r then
    some ⟨t.rows ++ [r], List.pairwise_append.2
      ⟨t.unique, by simp, fun s hs q hq => by simpa [List.mem_singleton.1 hq] using h s hs⟩⟩
  else none

def insertOrIgnore (t : Table ρ Clash) (r : ρ) : Table ρ Clash :=
  (t.insert r).getD t

variable {t : Table ρ Clash} {r : ρ}

theorem insert_eq_some {t' : Table ρ Clash} (h : t.insert r = some t') :
    t'.rows = t.rows ++ [r] ∧ ∀ s ∈ t.rows, ¬ Clash s r := by
  unfold insert at h
  split at h
  · next hfree =>
      cases h
      exact ⟨rfl, hfree⟩
  · cases h

theorem insert_of_free (h : ∀ s ∈ t.rows, ¬ Clash s r) :
    ∃ t', t.insert r = some t' ∧ t'.rows = t.rows ++ [r] :=
  ⟨_, dif_pos h, rfl⟩

theorem insert_eq_none (h : t.insert r = none) : ∃ s ∈ t.rows, Clash s r := by
  unfold insert at h
  split at h
  · cases h
  · next hclash => simpa using hclash

theorem rows_insertOrIgnore (t : Table ρ Clash) (r : ρ) : t.rows <+: (t.insertOrIgnore r).rows := by
  unfold insertOrIgnore
  cases h : t.insert r with
  | none => simp
  | some t' => simp [(insert_eq_some h).1]

theorem exists_insertOrIgnore (t : Table ρ Clash) (r : ρ) :
    ∃ s ∈ (t.insertOrIgnore r).rows, s = r ∨ Clash s r := by
  unfold insertOrIgnore
  cases h : t.insert r with
  | none =>
    rcases insert_eq_none h with ⟨s, hs, hclash⟩
    exact ⟨s, by simpa using hs, .inr hclash⟩
  | some t' => exact ⟨r, by simp [(insert_eq_some h).1], .inl rfl⟩

theorem mem_insertOrIgnore {s : ρ} (h : s ∈ (t.insertOrIgnore r).rows) : s ∈ t.rows ∨ s = r := by
  unfold insertOrIgnore at h
  cases hins : t.insert r with
  | none =>
    rw [hins] at h
    exact .inl h
  | some t' =>
    rw [hins, Option.getD_some, (insert_eq_some hins).1] at h
    exact (List.mem_append.1 h).imp_right fun hs => List.mem_singleton.1 hs

theorem mem_insertOrIgnore_self (h : ∀ s ∈ t.rows, ¬ Clash s r) :
    r ∈ (t.insertOrIgnore r).rows := by
  rcases insert_of_free h with ⟨t', ht', hrows⟩
  simp [insertOrIgnore, ht', hrows]

end Insert

def update (t : Table ρ Clash) (f : ρ → ρ) (hf : ∀ r s, Clash (f r) (f s) → Clash r s) :
    Table ρ Clash :=
  ⟨t.rows.map f, List.pairwise_map.2 (t.unique.imp fun h hc => h (hf _ _ hc))⟩

@[simp] theorem rows_empty : (empty : Table ρ Clash).rows = [] :=
  rfl

@[simp] theorem rows_update (t : Table ρ Clash) (f : ρ → ρ)
    (hf : ∀ r s, Clash (f r) (f s) → Clash r s) : (t.update f hf).rows = t.rows.map f :=
  rfl

theorem mem_eq_of_clash (t : Table ρ Clash) (hsymm : ∀ {r s}, Clash r s → Clash s r) {r s : ρ}
    (hr : r ∈ t.rows) (hs : s ∈ t.rows) (h : Clash r s) : r = s := by
  by_contra hne
  have : Std.Symm fun r s => ¬ Clash r s := ⟨fun _ _ hfree hclash => hfree (hsymm hclash)⟩
  exact t.unique.forall hr hs hne h

theorem countP_le_one {κ : Type} [DecidableEq κ] (t : Table ρ Clash) (f : ρ → κ)
    (hf : ∀ {r s}, f r = f s → Clash r s) (k : κ) : t.rows.countP (fun r => f r = k) ≤ 1 := by
  rcases t with ⟨rows, hunique⟩
  induction rows with
  | nil => simp
  | cons r rs ih =>
    rcases List.pairwise_cons.1 hunique with ⟨hr, hrs⟩
    by_cases hk : f r = k
    · have hnone : rs.countP (fun s => f s = k) = 0 := by
        refine List.countP_eq_zero.2 ?_
        intro s hs hsk
        exact hr s hs (hf (hk.trans (of_decide_eq_true hsk).symm))
      simp [hk, hnone]
    · simpa [hk] using ih hrs

end Table

end RelayPoint
