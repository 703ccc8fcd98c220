import Mathlib.Data.Finmap

/-!
# FinmapOps — maps over the values of a finite map

`Finmap` has insertion, erasure and union.  The two operations here go over all entries at once:
`mapValues` replaces each value, `filterValues` keeps the entries whose value passes a test.
-/

namespace RelayPoint.FinmapOps

variable {α : Type} {β γ : Type}

section Map

variable (f : α → β → γ) (s : Finmap fun _ : α => β)

def mapValues : Finmap fun _ : α => γ where
  entries := s.entries.map fun e => ⟨e.1, f e.1 e.2⟩
  nodupKeys := by
    have hkeys : (s.entries.map fun e => (⟨e.1, f e.1 e.2⟩ : Sigma fun _ : α => γ)).keys =
        s.entries.keys := by
      simp [Multiset.keys]
    rw [← Multiset.nodup_keys, hkeys, Multiset.nodup_keys]
    exact s.nodupKeys

theorem lookup_mapValues [DecidableEq α] (a : α) :
    (mapValues f s).lookup a = (s.lookup a).map (f a) := by
  apply Option.ext
  intro c
  constructor
  · intro hc
    have hmem := Finmap.mem_lookup_iff.1 (Option.mem_def.2 hc)
    rcases Multiset.mem_map.1 hmem with ⟨⟨a', b⟩, hb, heq⟩
    cases heq
    exact Option.map_eq_some_iff.2 ⟨b, Finmap.mem_lookup_iff.2 hb, rfl⟩
  · intro hc
    rcases Option.map_eq_some_iff.1 hc with ⟨b, hb, rfl⟩
    refine Finmap.mem_lookup_iff.2 (Multiset.mem_map.2 ⟨⟨a, b⟩, ?_, rfl⟩)
    exact Finmap.mem_lookup_iff.1 hb

end Map

section Filter

variable (p : β → Bool) (s : Finmap fun _ : α => β)

def filterValues : Finmap fun _ : α => β where
  entries := s.entries.filter fun e => p e.2
  nodupKeys := by
    have hle : (s.entries.filter fun e => p e.2).keys ≤ s.entries.keys :=
      Multiset.map_le_map (Multiset.filter_le _ _)
    exact Multiset.nodup_keys.1 (Multiset.nodup_of_le hle (Multiset.nodup_keys.2 s.nodupKeys))

theorem lookup_filterValues [DecidableEq α] (a : α) :
    (filterValues p s).lookup a = (s.lookup a).filter p := by
  apply Option.ext
  intro b
  constructor
  · intro hb
    have hmem := Multiset.mem_filter.1 (Finmap.mem_lookup_iff.1 (Option.mem_def.2 hb))
    have hl : s.lookup a = some b := Finmap.mem_lookup_iff.2 hmem.1
    simpa [hl] using hmem.2
  · intro hb
    rcases Option.filter_eq_some_iff.1 hb with ⟨hl, hp⟩
    exact Finmap.mem_lookup_iff.2 (Multiset.mem_filter.2 ⟨Finmap.mem_lookup_iff.1 hl, hp⟩)

end Filter

end RelayPoint.FinmapOps
