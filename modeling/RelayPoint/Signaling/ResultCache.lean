import RelayPoint.Signaling.State

/-!
# ResultCache — the dedup cache as the slice and the map that it is

The source keeps the dedup entries of an interaction in a map `results` and a slice `resultOrder`; the
eviction loop takes `resultOrder[0]` without a test, so it relies on the slice not running out before
the map.  `InteractionState` has a `FifoCache` in their place, which cannot go wrong.  This module has
the two fields without any assumption about them, the loops with the index expression that may be out
of range, and what justifies the abstraction: on what the operations build the two agree.
-/

namespace RelayPoint.Signaling

structure ResultStore where
  results : Finmap fun _ : String => StoredResult
  resultOrder : List String

namespace ResultStore

def empty : ResultStore :=
  ⟨∅, []⟩

/-- `for max > 0 && len(st.results) > max`.  A pass takes the head off the order, so there are no more
passes than the order is long; a pass with an empty order panics. -/
def evictLoop (max : Nat) :
    List String → (Finmap fun _ : String => StoredResult) → Option ResultStore
  | [], results =>
    if 0 < max ∧ max < results.keys.card then none else some ⟨results, []⟩
  | oldest :: rest, results =>
    if 0 < max ∧ max < results.keys.card then evictLoop max rest (results.erase oldest)
    else some ⟨results, oldest :: rest⟩

def enlist (d : ResultStore) (id : String) : List String :=
  if id ∈ d.results then d.resultOrder else d.resultOrder ++ [id]

def putResult (d : ResultStore) (id : String) (sr : StoredResult) (max : Nat) : Option ResultStore :=
  evictLoop max (d.enlist id) (d.results.insert id sr)

def copyLoop (fresh : ResultStore) (max : Nat) : List String → ResultStore → Option ResultStore
  | [], d => some d
  | id :: ids, d =>
    match fresh.results.lookup id with
    -- an id without an entry is skipped
    | none => copyLoop fresh max ids d
    | some sr =>
      if id ∈ d.results then copyLoop fresh max ids d
      else (d.putResult id sr max).bind (copyLoop fresh max ids)

def copyMissingResults (d fresh : ResultStore) (max : Nat) : Option ResultStore :=
  copyLoop fresh max fresh.resultOrder d

inductive Built (max : Nat) : ResultStore → Prop where
  | empty : Built max ResultStore.empty
  | put {d d' : ResultStore} (id : String) (sr : StoredResult) :
      Built max d → d.putResult id sr max = some d' → Built max d'
  | copy {d fresh d' : ResultStore} :
      Built max d → Built max fresh → d.copyMissingResults fresh max = some d' → Built max d'

/-! ## The two fields of a cache -/

def ofCache (c : FifoCache String StoredResult) : ResultStore :=
  ⟨c.entries, c.order⟩

variable {max : Nat}

theorem evictLoop_eq_trim {order : List String} {results : Finmap fun _ : String => StoredResult}
    (hnodup : order.Nodup) (hmem : ∀ id, id ∈ order ↔ id ∈ results) :
    evictLoop max order results =
      some ⟨(FifoCache.trim max order results).2, (FifoCache.trim max order results).1⟩ := by
  induction order generalizing results with
  | nil =>
    -- the order has run out, so the map has
    have hcard : ([] : List String).length = results.keys.card :=
      FifoCache.length_eq_card hnodup hmem
    have hsmall : ¬ (0 < max ∧ max < results.keys.card) := by
      rw [← hcard]
      simp
    simp only [evictLoop, if_neg hsmall, FifoCache.trim]
  | cons oldest rest ih =>
    by_cases hbig : 0 < max ∧ max < results.keys.card
    · simp only [evictLoop, FifoCache.trim, if_pos hbig]
      exact ih (List.nodup_cons.1 hnodup).2 (FifoCache.mem_erase_oldest hnodup hmem)
    · simp only [evictLoop, FifoCache.trim, if_neg hbig]

@[simp] theorem enlist_ofCache (c : FifoCache String StoredResult) (id : String) :
    (ofCache c).enlist id = c.insertOrder id :=
  rfl

theorem putResult_ofCache (c : FifoCache String StoredResult) (id : String) (sr : StoredResult) :
    (ofCache c).putResult id sr max = some (ofCache (c.put id sr max)) :=
  evictLoop_eq_trim (c.nodup_insertOrder id) (c.mem_insertOrder id sr)

theorem copyLoop_ofCache (fresh : FifoCache String StoredResult) (ids : List String)
    (c : FifoCache String StoredResult) :
    copyLoop (ofCache fresh) max ids (ofCache c) =
      some (ofCache (ids.foldl (FifoCache.copyOne fresh max) c)) := by
  induction ids generalizing c with
  | nil => rfl
  | cons id ids ih =>
    rw [List.foldl_cons, ← ih]
    cases hfresh : fresh.lookup id with
    | none =>
      have hentry : (ofCache fresh).results.lookup id = none := hfresh
      simp only [copyLoop, hentry, FifoCache.copyOne, hfresh]
    | some sr =>
      have hentry : (ofCache fresh).results.lookup id = some sr := hfresh
      by_cases hmem : id ∈ c.entries
      · have hmem' : id ∈ (ofCache c).results := hmem
        simp only [copyLoop, hentry, FifoCache.copyOne, hfresh, if_pos hmem, if_pos hmem']
      · have hmem' : id ∉ (ofCache c).results := hmem
        simp only [copyLoop, hentry, FifoCache.copyOne, hfresh, if_neg hmem, if_neg hmem',
          putResult_ofCache, Option.bind_some]

theorem copyMissingResults_ofCache (c fresh : FifoCache String StoredResult) :
    (ofCache c).copyMissingResults (ofCache fresh) max = some (ofCache (c.copyMissing fresh max)) :=
  copyLoop_ofCache fresh fresh.order c

/-- The loop over slice and map ends, and leaves what the cache of the state has. -/
theorem putResult_refines (st : InteractionState) (id : String) (sr : StoredResult) :
    (ofCache st.results).putResult id sr max = some (ofCache (st.putResult id sr max).results) :=
  putResult_ofCache st.results id sr

theorem copyMissingResults_refines (st fresh : InteractionState) :
    (ofCache st.results).copyMissingResults (ofCache fresh.results) max =
      some (ofCache (st.copyMissingResults fresh max).results) :=
  copyMissingResults_ofCache st.results fresh.results

/-! ## What is built -/

theorem Built.exists_cache (hmax : 0 < max) {d : ResultStore} (h : Built max d) :
    ∃ c : FifoCache String StoredResult, d = ofCache c ∧ c.order.length ≤ max := by
  induction h with
  | empty => exact ⟨FifoCache.empty, rfl, Nat.zero_le _⟩
  | put id sr _ hput ih =>
    rcases ih with ⟨c, rfl, _⟩
    rw [putResult_ofCache] at hput
    exact ⟨_, (Option.some.inj hput).symm, FifoCache.length_put_le hmax⟩
  | copy _ _ hcopy ih ihfresh =>
    rcases ih with ⟨c, rfl, hle⟩
    rcases ihfresh with ⟨fresh, rfl, _⟩
    rw [copyMissingResults_ofCache] at hcopy
    exact ⟨_, (Option.some.inj hcopy).symm, FifoCache.length_foldl_copyOne_le _ hmax _ hle⟩

theorem putResult_evicts (hmax : 0 < max) {c : FifoCache String StoredResult}
    (hle : c.order.length ≤ max) (id : String) (sr : StoredResult) :
    (c.put id sr max).lookup id = some sr ∧
      ∃ evicted, evicted ++ (c.put id sr max).order = c.insertOrder id ∧ id ∉ evicted ∧
        ∀ x, x ≠ id →
          (c.put id sr max).lookup x = if x ∈ evicted then none else c.lookup x := by
  refine ⟨FifoCache.lookup_put_self hmax hle, (c.insertOrder id).take ((c.insertOrder id).length - max),
    ?_, ?_, ?_⟩
  · rw [FifoCache.order_put hmax, List.take_append_drop]
  · intro hid
    have hnodup := c.nodup_insertOrder id
    rw [← List.take_append_drop ((c.insertOrder id).length - max) (c.insertOrder id),
      ← FifoCache.order_put (b := sr) hmax] at hnodup
    exact (List.nodup_append.1 hnodup).2.2 id hid id (FifoCache.mem_order_put_self hmax hle) rfl
  · intro x hx
    have hsplit := List.take_append_drop ((c.insertOrder id).length - max) (c.insertOrder id)
    have hnodup := c.nodup_insertOrder id
    rw [← hsplit] at hnodup
    split
    · next hgone =>
        refine FifoCache.lookup_eq_none fun hstays => ?_
        rw [FifoCache.order_put hmax] at hstays
        exact (List.nodup_append.1 hnodup).2.2 x hgone x hstays rfl
    · next hkept =>
        by_cases hmem : x ∈ (c.put id sr max).order
        · rw [FifoCache.lookup_put_of_mem hmax hmem, if_neg hx]
        · -- neither evicted nor kept: it was not there
          rw [FifoCache.lookup_eq_none hmem]
          refine (FifoCache.lookup_eq_none fun hold => ?_).symm
          rw [FifoCache.order_put hmax] at hmem
          have : x ∈ c.insertOrder id := by
            unfold FifoCache.insertOrder
            split
            · exact hold
            · exact List.mem_append_left _ hold
          rw [← hsplit] at this
          exact (List.mem_append.1 this).elim hkept hmem

theorem copied_lookup (hmax : 0 < max) {c fresh : FifoCache String StoredResult}
    (hle : c.order.length ≤ max) (hfresh : fresh.order.length ≤ max) {before after : List String}
    {id : String} {sr : StoredResult} (hids : fresh.order = before ++ id :: after)
    (hsr : fresh.lookup id = some sr)
    (hnew : id ∉ (before.foldl (FifoCache.copyOne fresh max) c).entries) :
    (c.copyMissing fresh max).lookup id = some sr := by
  have hmid := FifoCache.length_foldl_copyOne_le fresh hmax before hle
  have hnodup := fresh.nodup
  have hlen := hfresh
  rw [FifoCache.copyMissing, hids, List.foldl_append, List.foldl_cons]
  rw [hids] at hnodup hlen
  rw [List.length_append, List.length_cons] at hlen
  generalize before.foldl (FifoCache.copyOne fresh max) c = mid at hmid hnew ⊢
  have hcopy : FifoCache.copyOne fresh max mid id = mid.put id sr max := by
    simp [FifoCache.copyOne, hsr, hnew]
  rw [hcopy, ← hsr]
  refine FifoCache.lookup_copyOne_foldl hmax [id] after ?_ ?_ ?_ ?_ id (by simp)
  · exact (List.nodup_append.1 hnodup).2.1
  · simp only [List.length_singleton]
    omega
  · rw [FifoCache.order_put_of_notMem hmax hnew]
    exact List.suffix_append _ _
  · intro x hx
    rw [List.mem_singleton.1 hx, FifoCache.lookup_put_self hmax hmid, hsr]

/-- The cache under a positive bound, whatever was put into it and merged with it: the order lists
each key once, the bound is kept, the eviction loop ends without an index out of range and drops only
the entries longest in the order, never the one it makes room for, and what a merge copies stays. -/
theorem resultCache_sound (hmax : 0 < max) {d : ResultStore} (h : Built max d) :
    (d.resultOrder.Nodup ∧ ∀ id, id ∈ d.resultOrder ↔ id ∈ d.results) ∧
    d.results.keys.card ≤ max ∧
    (∀ id sr, ∃ d', d.putResult id sr max = some d' ∧ d'.results.lookup id = some sr ∧
      ∃ evicted, evicted ++ d'.resultOrder = d.enlist id ∧ id ∉ evicted ∧
        ∀ x, x ≠ id → d'.results.lookup x = if x ∈ evicted then none else d.results.lookup x) ∧
    ∀ fresh, Built max fresh → ∃ d', d.copyMissingResults fresh max = some d' ∧
      ∀ before id after mid sr, fresh.resultOrder = before ++ id :: after →
        copyLoop fresh max before d = some mid → fresh.results.lookup id = some sr →
        id ∉ mid.results → d'.results.lookup id = some sr := by
  rcases h.exists_cache hmax with ⟨c, rfl, hle⟩
  have hcard : c.entries.keys.card ≤ max := by
    rw [← FifoCache.length_eq_card c.nodup c.mem_order]
    exact hle
  refine ⟨⟨c.nodup, c.mem_order⟩, hcard, ?_, ?_⟩
  · intro id sr
    exact ⟨_, putResult_ofCache c id sr, putResult_evicts hmax hle id sr⟩
  · intro fresh hbuilt
    rcases hbuilt.exists_cache hmax with ⟨fresh, rfl, hfresh⟩
    refine ⟨_, copyMissingResults_ofCache c fresh, ?_⟩
    intro before id after mid sr hids hmid hsr hnew
    rw [copyLoop_ofCache] at hmid
    cases hmid
    exact copied_lookup hmax hle hfresh hids hsr hnew

/-- Two entries under a bound of one: the second evicts the first. -/
theorem resultCache_sound_one :
    ∃ (sr : StoredResult) (d d' : ResultStore), Built 1 d ∧ d.resultOrder = ["a"] ∧
      d.putResult "b" sr 1 = some d' ∧ d'.results.lookup "b" = some sr ∧
      ∃ evicted, evicted ++ d'.resultOrder = ["a", "b"] := by
  let sr : StoredResult := ⟨"", rejected "a" ""⟩
  have hbuilt : Built 1 (ofCache ((FifoCache.empty).put "a" sr 1)) :=
    .put "a" sr .empty (putResult_ofCache FifoCache.empty "a" sr)
  rcases (resultCache_sound (by decide) hbuilt).2.2.1 "b" sr with ⟨d', hput, hb, evicted, horder, _⟩
  exact ⟨sr, _, d', hbuilt, rfl, hput, hb, evicted, horder⟩

end ResultStore

end RelayPoint.Signaling
