import Mathlib.Data.List.Basic

/-!
# Checkpoint — a versioned state as a checkpoint and the entries after it

A component that keeps only its current state stands for more than that: for the checkpoint it
started from and the entries that were applied since, one for each version.  `History` is that
abstract object.  It changes in two ways, by entries that continue it (`extend`) and by a new
checkpoint (`restart`).
-/

namespace RelayPoint.Journal

section Consecutive

variable {γ : Type} {version : γ → Nat} {b : Nat} {e : γ} {l l' : List γ}

def Consecutive (version : γ → Nat) (b : Nat) (l : List γ) : Prop :=
  ∀ i e, l[i]? = some e → version e = b + 1 + i

theorem consecutive_nil : Consecutive version b [] := by
  intro i e h
  simp at h

theorem consecutive_cons :
    Consecutive version b (e :: l) ↔ version e = b + 1 ∧ Consecutive version (b + 1) l := by
  constructor
  · intro h
    refine ⟨h 0 e (by simp), ?_⟩
    intro i e' he'
    have := h (i + 1) e' (by simpa using he')
    omega
  · rintro ⟨he, hl⟩ i e' he'
    cases i with
    | zero =>
      have : e = e' := by simpa using he'
      simpa [this] using he
    | succ i =>
      have := hl i e' (by simpa using he')
      omega

theorem Consecutive.append (h : Consecutive version b l)
    (h' : Consecutive version (b + l.length) l') : Consecutive version b (l ++ l') := by
  intro i e he
  by_cases hi : i < l.length
  · exact h i e (by simpa [List.getElem?_append_left hi] using he)
  · have := h' (i - l.length) e (by simpa [List.getElem?_append_right (Nat.le_of_not_lt hi)] using he)
    omega

theorem Consecutive.of_mem (h : Consecutive version b l) (he : e ∈ l) :
    b < version e ∧ version e ≤ b + l.length ∧ l[version e - (b + 1)]? = some e := by
  rcases List.getElem?_of_mem he with ⟨i, hi⟩
  have hv := h i e hi
  have hlt := (List.getElem?_eq_some_iff.1 hi).1
  refine ⟨by omega, by omega, ?_⟩
  have hidx : version e - (b + 1) = i := by omega
  rw [hidx, hi]

theorem Consecutive.eq_of_version {e' : γ} (h : Consecutive version b l) (he : e ∈ l) (he' : e' ∈ l)
    (hv : version e = version e') : e = e' := by
  have h₁ := (h.of_mem he).2.2
  have h₂ := (h.of_mem he').2.2
  rw [hv, h₂] at h₁
  exact (Option.some.inj h₁).symm

theorem Consecutive.getLast_eq (h : Consecutive version b l) (he : e ∈ l)
    (hv : version e = b + l.length) : l.getLast? = some e := by
  have hat := (h.of_mem he).2.2
  have hidx : version e - (b + 1) = l.length - 1 := by omega
  rw [List.getLast?_eq_getElem?, ← hidx, hat]

theorem Consecutive.version_getLast (h : Consecutive version b l) (hlast : l.getLast? = some e) :
    version e = b + l.length := by
  have hpos := List.length_pos_of_mem (List.mem_of_getLast? hlast)
  have hv := h (l.length - 1) e (by rwa [← List.getLast?_eq_getElem?])
  omega

theorem Consecutive.drop (h : Consecutive version b l) (n : Nat) :
    Consecutive version (b + n) (l.drop n) := by
  intro i e he
  have := h (n + i) e (by simpa using he)
  omega

theorem Consecutive.take (h : Consecutive version b l) (n : Nat) :
    Consecutive version b (l.take n) := by
  intro i e he
  rw [List.getElem?_take] at he
  split at he
  · exact h i e he
  · cases he

theorem Consecutive.pairwise_ne (h : Consecutive version b l) :
    l.Pairwise fun e e' => version e ≠ version e' := by
  refine List.pairwise_iff_getElem.2 ?_
  intro i j hi hj hij
  rw [h i _ (List.getElem?_eq_getElem hi), h j _ (List.getElem?_eq_getElem hj)]
  omega

def window (l : List γ) (m n : Nat) : List γ :=
  (l.drop m).take (n - m)

theorem window_subset {m n : Nat} : ∀ e ∈ window l m n, e ∈ l :=
  fun _ he => List.mem_of_mem_drop (List.mem_of_mem_take he)

theorem take_append_window {m n : Nat} (hm : m ≤ n) : l.take m ++ window l m n = l.take n := by
  have hsum : n = m + (n - m) := by omega
  calc
    l.take m ++ window l m n = l.take (m + (n - m)) := List.take_add.symm
    _ = l.take n := by rw [← hsum]

theorem pairwise_window {R : γ → γ → Prop} {m n : Nat} (h : l.Pairwise R) :
    (window l m n).Pairwise R :=
  h.drop.take

section Window

variable (h : Consecutive version 0 l) {m n : Nat}
include h

theorem Consecutive.window : Consecutive version m (Journal.window l m n) := by
  have hdrop := h.drop m
  rw [Nat.zero_add] at hdrop
  exact hdrop.take (n - m)

theorem Consecutive.length_window (he : e ∈ l) :
    (Journal.window l m (version e)).length = version e - m := by
  have hle := (h.of_mem he).2.1
  simp only [Journal.window, List.length_take, List.length_drop]
  omega

theorem Consecutive.mem_window (he : e ∈ l) (hm : m < version e) :
    e ∈ Journal.window l m (version e) := by
  have hat := (h.of_mem he).2.2
  refine List.mem_of_getElem? (i := version e - 1 - m) ?_
  rw [Journal.window, List.getElem?_take_of_lt (by omega), List.getElem?_drop]
  have hidx : m + (version e - 1 - m) = version e - (0 + 1) := by omega
  rw [hidx, hat]

end Window

end Consecutive

structure Checkpoint (σ : Type) where
  version : Nat
  state : σ

structure History (σ γ : Type) (version : γ → Nat) where
  base : Checkpoint σ
  tail : List γ
  consecutive : Consecutive version base.version tail

namespace History

variable {σ γ : Type} {version : γ → Nat} {apply : σ → γ → σ}

def head (h : History σ γ version) : Nat :=
  h.base.version + h.tail.length

def state (apply : σ → γ → σ) (h : History σ γ version) : σ :=
  h.tail.foldl apply h.base.state

def extend (h : History σ γ version) (l : List γ) (hl : Consecutive version h.head l) :
    History σ γ version :=
  ⟨h.base, h.tail ++ l, h.consecutive.append hl⟩

def restart (c : Checkpoint σ) : History σ γ version :=
  ⟨c, [], consecutive_nil⟩

@[simp] theorem head_extend (h : History σ γ version) (l : List γ)
    (hl : Consecutive version h.head l) : (h.extend l hl).head = h.head + l.length := by
  simp [head, extend, Nat.add_assoc]

@[simp] theorem state_extend (h : History σ γ version) (l : List γ)
    (hl : Consecutive version h.head l) :
    (h.extend l hl).state apply = l.foldl apply (h.state apply) := by
  simp [state, extend]

@[simp] theorem head_restart (c : Checkpoint σ) :
    (restart c : History σ γ version).head = c.version := by
  simp [head, restart]

@[simp] theorem state_restart (c : Checkpoint σ) :
    (restart c : History σ γ version).state apply = c.state :=
  rfl

theorem exists_version (h : History σ γ version) {v : Nat} (hb : h.base.version < v)
    (hv : v ≤ h.head) : ∃ e ∈ h.tail, version e = v := by
  have hi : v - h.base.version - 1 < h.tail.length := by
    unfold head at hv
    omega
  have he := h.consecutive _ _ (List.getElem?_eq_getElem hi)
  exact ⟨_, List.getElem_mem hi, by omega⟩

theorem eq_of_agree {h h' : History σ γ version} (hbase : h.base = h'.base)
    (hhead : h.head = h'.head)
    (hagree : ∀ e ∈ h.tail, ∀ e' ∈ h'.tail, version e = version e' → e = e') : h = h' := by
  have hlen : h.tail.length = h'.tail.length := by
    simp only [head, hbase] at hhead
    omega
  have htail : h.tail = h'.tail := by
    refine List.ext_getElem hlen ?_
    intro i hi hi'
    refine hagree _ (List.getElem_mem hi) _ (List.getElem_mem hi') ?_
    have he := h.consecutive i _ (List.getElem?_eq_getElem hi)
    have he' := h'.consecutive i _ (List.getElem?_eq_getElem hi')
    rw [he, he', hbase]
  cases h
  simp_all

end History

end RelayPoint.Journal
