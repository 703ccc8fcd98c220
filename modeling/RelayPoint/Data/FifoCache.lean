import Mathlib.Data.Finmap

/-!
# FifoCache — a bounded map that evicts by insertion order

A map together with the list of its keys in the order in which they were inserted.  The two stay in
bijection by construction: `order` has no repetition and lists exactly the keys of `entries`.
-/

namespace RelayPoint

structure FifoCache (α β : Type) [DecidableEq α] where
  entries : Finmap fun _ : α => β
  order : List α
  nodup : order.Nodup
  mem_order : ∀ a, a ∈ order ↔ a ∈ entries

namespace FifoCache

variable {α β : Type} [DecidableEq α]

def empty : FifoCache α β where
  entries := ∅
  order := []
  nodup := List.nodup_nil
  mem_order := by
    intro a
    simp [Finmap.notMem_empty]

def lookup (c : FifoCache α β) (a : α) : Option β :=
  c.entries.lookup a

/-- Drop the oldest keys while there are more than `max` entries.  The order runs out only when the
map has, so the index of the oldest key is always in range. -/
def trim (max : Nat) : List α → (Finmap fun _ : α => β) → List α × (Finmap fun _ : α => β)
  | [], entries => ([], entries)
  | oldest :: rest, entries =>
    if 0 < max ∧ max < entries.keys.card then trim max rest (entries.erase oldest)
    else (oldest :: rest, entries)

variable {max : Nat} {a x : α} {b y : β} {c : FifoCache α β}

theorem trim_nodup : ∀ {order : List α} {entries : Finmap fun _ : α => β},
    order.Nodup → (trim max order entries).1.Nodup := by
  intro order
  induction order with
  | nil =>
    simp [trim]
  | cons oldest rest ih =>
    intro entries h
    by_cases hbig : 0 < max ∧ max < entries.keys.card
    · simpa [trim, hbig] using ih (List.nodup_cons.1 h).2
    · simpa [trim, hbig] using h

variable {entries : Finmap fun _ : α => β} {fresh : FifoCache α β}

theorem mem_erase_oldest {oldest : α} {rest : List α} (hnodup : (oldest :: rest).Nodup)
    (hmem : ∀ a, a ∈ oldest :: rest ↔ a ∈ entries) (a : α) :
    a ∈ rest ↔ a ∈ entries.erase oldest := by
  rw [Finmap.mem_erase, ← hmem a, List.mem_cons]
  constructor
  · intro ha
    exact ⟨fun heq => (List.nodup_cons.1 hnodup).1 (heq ▸ ha), .inr ha⟩
  · rintro ⟨hne, ha⟩
    exact ha.resolve_left hne

theorem trim_mem_order : ∀ {order : List α} {entries : Finmap fun _ : α => β},
    order.Nodup → (∀ a, a ∈ order ↔ a ∈ entries) →
      ∀ a, a ∈ (trim max order entries).1 ↔ a ∈ (trim max order entries).2 := by
  intro order
  induction order with
  | nil => simp [trim]
  | cons oldest rest ih =>
    intro entries hnd h
    by_cases hbig : 0 < max ∧ max < entries.keys.card
    · simpa [trim, hbig] using ih (List.nodup_cons.1 hnd).2 (mem_erase_oldest hnd h)
    · simpa [trim, hbig] using h

theorem length_eq_card {order : List α} (hnodup : order.Nodup) (hmem : ∀ a, a ∈ order ↔ a ∈ entries) :
    order.length = entries.keys.card := by
  rw [← List.toFinset_card_of_nodup hnodup]
  congr 1
  ext a
  simp [hmem, Finmap.mem_keys]

theorem trim_eq_self : ∀ {order : List α} {entries : Finmap fun _ : α => β},
    order.Nodup → (∀ a, a ∈ order ↔ a ∈ entries) →
      (max = 0 ∨ (trim max order entries).1.length < max) →
      trim max order entries = (order, entries) := by
  intro order
  induction order with
  | nil =>
    intro entries _ _ _
    rfl
  | cons oldest rest ih =>
    intro entries hnodup hmem hroom
    by_cases hbig : 0 < max ∧ max < entries.keys.card
    · -- the rest would not be trimmed either, but then it reaches the bound
      have hlen : rest.length + 1 = entries.keys.card := length_eq_card hnodup hmem
      have htrim : trim max (oldest :: rest) entries = trim max rest (entries.erase oldest) := by
        simp [trim, hbig]
      rw [htrim] at hroom
      have hrest := ih (List.nodup_cons.1 hnodup).2 (mem_erase_oldest hnodup hmem) hroom
      have hroom : max = 0 ∨ rest.length < max := by simpa only [hrest] using hroom
      omega
    · simp [trim, hbig]

theorem lookup_trim :
    ∀ {order : List α} {entries : Finmap fun _ : α => β},
      (trim max order entries).2.lookup a = some b → entries.lookup a = some b := by
  intro order
  induction order with
  | nil => simp [trim]
  | cons oldest rest ih =>
    intro entries h
    by_cases hbig : 0 < max ∧ max < entries.keys.card
    · have herase : (entries.erase oldest).lookup a = some b := ih (by simpa [trim, hbig] using h)
      by_cases hne : a = oldest
      · subst hne
        simp at herase
      · simpa [hne] using herase
    · simpa [trim, hbig] using h

def insertOrder (c : FifoCache α β) (a : α) : List α :=
  if a ∈ c.entries then c.order else c.order ++ [a]

theorem nodup_insertOrder (c : FifoCache α β) (a : α) : (c.insertOrder a).Nodup := by
  unfold insertOrder
  split
  · exact c.nodup
  · next h =>
      refine List.nodup_append.2 ⟨c.nodup, by simp, ?_⟩
      intro x hx y hy hxy
      have hy : y = a := by simpa using hy
      exact h ((c.mem_order a).1 (by simpa [← hy, ← hxy] using hx))

theorem mem_insertOrder (c : FifoCache α β) (a : α) (b : β) (x : α) :
    x ∈ c.insertOrder a ↔ x ∈ c.entries.insert a b := by
  unfold insertOrder
  split
  · next h =>
      have hx : x = a → x ∈ c.entries := fun hxa => hxa ▸ h
      simpa [or_iff_right_of_imp hx] using c.mem_order x
  · simp [c.mem_order x, or_comm]

theorem length_le_insertOrder (c : FifoCache α β) (a : α) :
    c.order.length ≤ (c.insertOrder a).length := by
  unfold insertOrder
  split
  · exact Nat.le_refl _
  · simp

def put (c : FifoCache α β) (a : α) (b : β) (max : Nat) : FifoCache α β where
  entries := (trim max (c.insertOrder a) (c.entries.insert a b)).2
  order := (trim max (c.insertOrder a) (c.entries.insert a b)).1
  nodup := trim_nodup (c.nodup_insertOrder a)
  mem_order := trim_mem_order (c.nodup_insertOrder a) (c.mem_insertOrder a b)

def hasRoom (c : FifoCache α β) (max : Nat) : Bool :=
  max = 0 || c.order.length < max

theorem hasRoom_iff : c.hasRoom max = true ↔ max = 0 ∨ c.order.length < max := by
  rw [hasRoom, Bool.or_eq_true, decide_eq_true_eq, decide_eq_true_eq]

theorem put_of_hasRoom (h : (c.put a b max).hasRoom max = true) :
    c.hasRoom max = true ∧
      ∀ x, (c.put a b max).lookup x = if x = a then some b else c.lookup x := by
  have htrim : trim max (c.insertOrder a) (c.entries.insert a b) =
      (c.insertOrder a, c.entries.insert a b) :=
    trim_eq_self (c.nodup_insertOrder a) (c.mem_insertOrder a b) (hasRoom_iff.1 h)
  have horder : (c.put a b max).order = c.insertOrder a := congrArg Prod.fst htrim
  have hentries : (c.put a b max).entries = c.entries.insert a b := congrArg Prod.snd htrim
  refine ⟨?_, ?_⟩
  · rw [hasRoom_iff, horder] at h
    have hle := c.length_le_insertOrder a
    exact hasRoom_iff.2 (by omega)
  · intro x
    rw [lookup, hentries]
    by_cases hx : x = a
    · subst hx
      simp
    · simp [hx, lookup]

theorem hasRoom_of_lookup {γ : Type} {d : FifoCache α γ}
    (hsub : ∀ a b, c.lookup a = some b → ∃ b', d.lookup a = some b') (hroom : d.hasRoom max = true)
    : c.hasRoom max = true := by
  have horder : c.order ⊆ d.order := by
    intro a ha
    rcases Finmap.mem_iff.1 ((c.mem_order a).1 ha) with ⟨b, hb⟩
    exact (d.mem_order a).2 (Finmap.mem_iff.2 (hsub a b hb))
  have hle : c.order.length ≤ d.order.length := (List.subperm_of_subset c.nodup horder).length_le
  rw [hasRoom_iff] at hroom ⊢
  omega

theorem lookup_put (h : (c.put a b max).lookup x = some y) :
    (x = a ∧ y = b) ∨ (x ≠ a ∧ c.lookup x = some y) := by
  have hins : (c.entries.insert a b).lookup x = some y := lookup_trim h
  by_cases hx : x = a
  · subst hx
    have : b = y := by simpa using hins
    exact .inl ⟨rfl, this.symm⟩
  · exact .inr ⟨hx, by simpa [lookup, hx] using hins⟩

def copyOne (fresh : FifoCache α β) (max : Nat) (c : FifoCache α β) (a : α) : FifoCache α β :=
  match fresh.lookup a with
  | none => c
  | some b => if a ∈ c.entries then c else c.put a b max

def copyMissing (c fresh : FifoCache α β) (max : Nat) : FifoCache α β :=
  fresh.order.foldl (copyOne fresh max) c

theorem lookup_copyOne (h : (copyOne fresh max c a).lookup x = some y) :
    c.lookup x = some y ∨ fresh.lookup x = some y := by
  cases hf : fresh.lookup a with
  | none => exact .inl (by simpa [copyOne, hf] using h)
  | some b =>
    by_cases hmem : a ∈ c.entries
    · exact .inl (by simpa [copyOne, hf, hmem] using h)
    · rcases lookup_put (by simpa [copyOne, hf, hmem] using h) with ⟨hx, hy⟩ | ⟨_, hc⟩
      · exact .inr (by simpa [hx, hy] using hf)
      · exact .inl hc

theorem lookup_copyMissing (h : (c.copyMissing fresh max).lookup x = some y) :
    c.lookup x = some y ∨ fresh.lookup x = some y := by
  -- Induction over the order of `fresh`; the cache built so far is generalised.
  have key : ∀ (order : List α) (c : FifoCache α β),
      (order.foldl (copyOne fresh max) c).lookup x = some y →
        c.lookup x = some y ∨ fresh.lookup x = some y := by
    intro order
    induction order with
    | nil =>
      intro c h
      exact .inl h
    | cons a rest ih =>
      intro c h
      rcases ih (copyOne fresh max c a) h with hc | hf
      · exact lookup_copyOne hc
      · exact .inr hf
  exact key fresh.order c h

/-! ## At the bound -/

section Bound

variable {max : Nat} {order : List α} {entries : Finmap fun _ : α => β}

theorem trim_order (hmax : 0 < max) (hnodup : order.Nodup) (hmem : ∀ a, a ∈ order ↔ a ∈ entries) :
    (trim max order entries).1 = order.drop (order.length - max) := by
  induction order generalizing entries with
  | nil => simp [trim]
  | cons oldest rest ih =>
    have hlen : (oldest :: rest).length = entries.keys.card := length_eq_card hnodup hmem
    by_cases hbig : max < entries.keys.card
    · have hdrop : (oldest :: rest).length - max = (rest.length - max) + 1 := by
        rw [List.length_cons] at hlen ⊢
        omega
      rw [hdrop, List.drop_succ_cons,
        ← ih (List.nodup_cons.1 hnodup).2 (mem_erase_oldest hnodup hmem)]
      simp [trim, hmax, hbig]
    · have hnone : (oldest :: rest).length - max = 0 := by omega
      rw [hnone]
      simp [trim, hbig]

theorem lookup_trim_of_mem (hmax : 0 < max) (hnodup : order.Nodup)
    (hmem : ∀ a, a ∈ order ↔ a ∈ entries) (ha : a ∈ (trim max order entries).1) :
    (trim max order entries).2.lookup a = entries.lookup a := by
  induction order generalizing entries with
  | nil => simp [trim] at ha
  | cons oldest rest ih =>
    by_cases hbig : max < entries.keys.card
    · have htrim : trim max (oldest :: rest) entries = trim max rest (entries.erase oldest) := by
        simp [trim, hmax, hbig]
      have hrest := (List.nodup_cons.1 hnodup).2
      rw [htrim] at ha ⊢
      rw [ih hrest (mem_erase_oldest hnodup hmem) ha]
      have hold : a ∈ rest := by
        rw [trim_order hmax hrest (mem_erase_oldest hnodup hmem)] at ha
        exact List.mem_of_mem_drop ha
      have hne : a ≠ oldest := fun heq => (List.nodup_cons.1 hnodup).1 (heq ▸ hold)
      simp [hne]
    · simp [trim, hbig]

variable {c fresh : FifoCache α β} {a x : α} {b : β}

theorem lookup_eq_none (h : x ∉ c.order) : c.lookup x = none := by
  rw [c.mem_order] at h
  exact Finmap.lookup_eq_none.2 h

theorem order_put (hmax : 0 < max) :
    (c.put a b max).order = (c.insertOrder a).drop ((c.insertOrder a).length - max) :=
  trim_order hmax (c.nodup_insertOrder a) (c.mem_insertOrder a b)

theorem length_put_le (hmax : 0 < max) : (c.put a b max).order.length ≤ max := by
  rw [order_put hmax, List.length_drop]
  omega

theorem lookup_put_of_mem (hmax : 0 < max) (h : x ∈ (c.put a b max).order) :
    (c.put a b max).lookup x = if x = a then some b else c.lookup x := by
  have htrim : (c.put a b max).lookup x = (c.entries.insert a b).lookup x :=
    lookup_trim_of_mem hmax (c.nodup_insertOrder a) (c.mem_insertOrder a b) h
  rw [htrim]
  by_cases hx : x = a
  · subst hx
    simp
  · simp [hx, lookup]

theorem order_put_of_notMem (hmax : 0 < max) (h : a ∉ c.entries) :
    (c.put a b max).order = c.order.drop (c.order.length + 1 - max) ++ [a] := by
  have hlen : c.order.length + 1 - max ≤ c.order.length := by omega
  rw [order_put hmax, insertOrder, if_neg h, List.length_append, List.length_singleton,
    List.drop_append_of_le_length hlen]

theorem order_put_of_mem (hmax : 0 < max) (hle : c.order.length ≤ max) (h : a ∈ c.entries) :
    (c.put a b max).order = c.order := by
  rw [order_put hmax, insertOrder, if_pos h, Nat.sub_eq_zero_of_le hle, List.drop_zero]

theorem mem_order_put_self (hmax : 0 < max) (hle : c.order.length ≤ max) :
    a ∈ (c.put a b max).order := by
  by_cases h : a ∈ c.entries
  · rw [order_put_of_mem hmax hle h]
    exact (c.mem_order a).2 h
  · simp [order_put_of_notMem hmax h]

theorem lookup_put_self (hmax : 0 < max) (hle : c.order.length ≤ max) :
    (c.put a b max).lookup a = some b := by
  simp [lookup_put_of_mem hmax (mem_order_put_self hmax hle)]

theorem copyOne_cases (fresh c : FifoCache α β) (max : Nat) (a : α) :
    copyOne fresh max c a = c ∨
      ∃ b, fresh.lookup a = some b ∧ a ∉ c.entries ∧ copyOne fresh max c a = c.put a b max := by
  cases hfresh : fresh.lookup a with
  | none => exact .inl (by simp [copyOne, hfresh])
  | some b =>
    by_cases h : a ∈ c.entries
    · exact .inl (by simp [copyOne, hfresh, h])
    · exact .inr ⟨b, rfl, h, by simp [copyOne, hfresh, h]⟩

theorem length_copyOne_le (hmax : 0 < max) (hle : c.order.length ≤ max) :
    (copyOne fresh max c a).order.length ≤ max := by
  rcases copyOne_cases fresh c max a with h | ⟨b, _, _, h⟩
  · rwa [h]
  · rw [h]
    exact length_put_le hmax

theorem length_foldl_copyOne_le (fresh : FifoCache α β) (hmax : 0 < max) (ids : List α) (hle : c.order.length ≤ max) :
    (ids.foldl (copyOne fresh max) c).order.length ≤ max := by
  induction ids generalizing c with
  | nil => exact hle
  | cons a ids ih => exact ih (length_copyOne_le hmax hle)

omit [DecidableEq α] in
theorem suffix_drop {done : List α} (h : done <:+ order) (hle : done.length ≤ max) :
    done <:+ order.drop (order.length - max) := by
  rcases h with ⟨front, rfl⟩
  rw [List.drop_append_of_le_length (by simp; omega)]
  exact List.suffix_append _ _

theorem lookup_copyOne_foldl (hmax : 0 < max) (done ids : List α)
    (hnodup : (done ++ ids).Nodup) (hlen : done.length + ids.length ≤ max)
    (hend : done <:+ c.order) (hvalue : ∀ x ∈ done, c.lookup x = fresh.lookup x) :
    ∀ x ∈ done, (ids.foldl (copyOne fresh max) c).lookup x = fresh.lookup x := by
  induction ids generalizing c done with
  | nil => exact hvalue
  | cons a ids ih =>
    have hsplit : (done ++ [a] ++ ids).Nodup := by simpa using hnodup
    rw [List.length_cons] at hlen
    rcases copyOne_cases fresh c max a with h | ⟨b, hb, hnew, h⟩
    · have hskip : (done ++ ids).Nodup :=
        hsplit.sublist (by simp)
      rw [List.foldl_cons, h]
      exact ih done hskip (by omega) hend hvalue
    · -- the new copy joins the others
      have hinsert : c.insertOrder a = c.order ++ [a] := if_neg hnew
      have hend' : done ++ [a] <:+ (c.put a b max).order := by
        rw [order_put hmax]
        refine suffix_drop ?_ (by simp; omega)
        rw [hinsert]
        rcases hend with ⟨front, hfront⟩
        exact ⟨front, by rw [← hfront, List.append_assoc]⟩
      rw [List.foldl_cons, h]
      intro x hx
      refine ih (done ++ [a]) hsplit (by simp; omega) hend' ?_ x (by simp [hx])
      intro y hy
      rw [lookup_put_of_mem hmax (hend'.subset hy)]
      split
      · next heq => rw [heq, hb]
      · next hne =>
          have hy' : y ∈ done := by simpa [hne] using hy
          exact hvalue y hy'

end Bound

end FifoCache

end RelayPoint
