import RelayPoint.Participation.Effects

/-!
# Ledger — the store as a checkpoint and the commands after it

The store keeps a head version and a set of participants per interaction.  `Represents` says which
history they stand for: the last installed snapshot, and one ledgered command for each version since.
A commit leaves the history alone (`Keeps`), continues it (`Extended`) or starts a new one
(`Restarted`); in each case the store represents the new history, and it only ever moves forward
(`Grows`).
-/

namespace RelayPoint.Participation

open Journal

/-! ## Histories -/

abbrev CommandHistory := History (Finset String) Record Record.version

structure Represents (w : World) (key : Key) (h : CommandHistory) : Prop where
  base : h.base = w.checkpoint key
  head : w.headVersion key = h.head
  rows : ∀ r ∈ h.tail, r.key = key ∧ VersionRow.of r ∈ w.versions.rows
  state : w.participants key = h.state Record.apply
  anchor : ∀ s, w.base key = some s → 0 < s.fold.version ∧
    ∃ row ∈ w.versions.rows, row.key = key ∧ row.version = s.fold.version

/-- Every interaction has its history, and every install stored what `foldRecords` had computed. -/
structure Coherent (w : World) : Prop where
  represents : ∀ key, ∃ h, Represents w key h
  installs : ∀ i ∈ w.installs, i.1.participants = i.2

theorem coherent_empty : Coherent World.empty where
  represents := fun key => ⟨History.restart ⟨0, ∅⟩, rfl, rfl, by simp [History.restart], rfl,
    by simp [World.empty]⟩
  installs := by simp [World.empty]

theorem VersionRow.clash_symm {r s : VersionRow} (h : VersionRow.Clash r s) : VersionRow.Clash s r :=
  ⟨h.1.symm, h.2.symm⟩

namespace Represents

variable {w : World} {key : Key} {h h' : CommandHistory}

theorem unique (hh : Represents w key h) (hh' : Represents w key h') : h = h' := by
  refine History.eq_of_agree (hh.base.trans hh'.base.symm) (hh.head.symm.trans hh'.head) ?_
  intro r hr r' hr' hversion
  rcases hh.rows r hr with ⟨hkey, hrow⟩
  rcases hh'.rows r' hr' with ⟨hkey', hrow'⟩
  have hsame : VersionRow.of r = VersionRow.of r' :=
    w.versions.mem_eq_of_clash VersionRow.clash_symm hrow hrow' ⟨hkey.trans hkey'.symm, hversion⟩
  exact Record.ext_body (Option.some.inj (congrArg VersionRow.body hsame))

theorem exists_row (hh : Represents w key h) {v : Nat} (hb : h.base.version < v)
    (hv : v ≤ w.headVersion key) : ∃ row ∈ w.versions.rows, row.key = key ∧ row.version = v := by
  rcases h.exists_version hb (hh.head ▸ hv) with ⟨r, hr, hversion⟩
  rcases hh.rows r hr with ⟨hkey, hrow⟩
  exact ⟨_, hrow, hkey, hversion⟩

theorem exists_row_head (hh : Represents w key h) (hpos : 0 < w.headVersion key) :
    ∃ row ∈ w.versions.rows, row.key = key ∧ row.version = w.headVersion key := by
  by_cases hb : h.base.version < w.headVersion key
  · exact hh.exists_row hb le_rfl
  · have hhead : w.headVersion key = h.base.version := by
      have := hh.head
      unfold History.head at this
      omega
    rw [hhead, hh.base] at hpos ⊢
    cases hs : w.base key with
    | none => simp [World.checkpoint, hs] at hpos
    | some s => simpa [World.checkpoint, hs] using (hh.anchor s hs).2

theorem participants_of_zero (hh : Represents w key h) (hzero : w.headVersion key = 0) :
    w.participants key = ∅ := by
  have hhead := hh.head
  rw [History.head] at hhead
  have hnil : h.tail = [] := List.length_eq_zero_iff.1 (by omega)
  have hbase : w.base key = none := by
    cases hs : w.base key with
    | none => rfl
    | some s =>
      have hversion : h.base.version = s.fold.version := by simp [hh.base, World.checkpoint, hs]
      have := (hh.anchor s hs).1
      omega
  calc
    w.participants key = h.base.state := by simp [hh.state, History.state, hnil]
    _ = ∅ := by simp [hh.base, World.checkpoint, hbase]

end Represents

/-! ## The store only moves forward -/

structure Grows (w w' : World) : Prop where
  head : ∀ key, w.headVersion key ≤ w'.headVersion key
  participants : ∀ key, w'.headVersion key = w.headVersion key →
    w'.participants key = w.participants key
  versions : w.versions.rows <+: w'.versions.rows
  events : w.events.rows <+: w'.events.rows
  dlq : w.dlq.rows <+: w'.dlq.rows

namespace Grows

theorem refl (w : World) : Grows w w :=
  ⟨fun _ => le_rfl, fun _ _ => rfl, List.prefix_rfl, List.prefix_rfl, List.prefix_rfl⟩

theorem trans {w₁ w₂ w₃ : World} (h : Grows w₁ w₂) (h' : Grows w₂ w₃) : Grows w₁ w₃ where
  head := fun key => (h.head key).trans (h'.head key)
  participants := by
    -- If the head is back where it was, it never left.
    intro key hsame
    have h₁ := h.head key
    have h₂ := h'.head key
    exact (h'.participants key (by omega)).trans (h.participants key (by omega))
  versions := h.versions.trans h'.versions
  events := h.events.trans h'.events
  dlq := h.dlq.trans h'.dlq

end Grows

/-! ## The three effects -/

section Preservation

variable {w w' : World}

theorem Keeps.grows (h : Keeps w w') : Grows w w' where
  head := fun key => by rw [h.head]
  participants := fun key _ => by rw [h.participants]
  versions := h.versions
  events := h.events
  dlq := h.dlq

theorem Represents.keep {key : Key} {H : CommandHistory} (hH : Represents w key H)
    (hhead : w'.headVersion key = w.headVersion key)
    (hparticipants : w'.participants key = w.participants key) (hbase : w'.base key = w.base key)
    (hversions : w.versions.rows <+: w'.versions.rows) : Represents w' key H where
  base := by simpa [World.checkpoint, hbase] using hH.base
  head := hhead.trans hH.head
  rows := fun r hr => ⟨(hH.rows r hr).1, hversions.subset (hH.rows r hr).2⟩
  state := hparticipants.trans hH.state
  anchor := by
    intro s hs
    rcases hH.anchor s (hbase ▸ hs) with ⟨hpos, row, hrow, hkey⟩
    exact ⟨hpos, row, hversions.subset hrow, hkey⟩

theorem Keeps.coherent (h : Keeps w w') (hw : Coherent w) : Coherent w' where
  represents := by
    intro key
    rcases hw.represents key with ⟨H, hH⟩
    exact ⟨H, hH.keep (by rw [h.head]) (by rw [h.participants]) (by rw [h.base]) h.versions⟩
  installs := by simpa [h.installs] using hw.installs

/-- The fold that an install commits was computed from the head and the participants it finds. -/
structure FoldsHead (w : World) (records : List Record) (final : Fold) : Prop where
  keys : ∀ r ∈ records, r.key = final.key
  consecutive : Consecutive Record.version (w.headVersion final.key) records
  version : final.version = w.headVersion final.key + records.length
  participants : final.participants = records.foldl Record.apply (w.participants final.key)

variable {records : List Record} {final : Fold}

theorem Extended.grows (h : Extended w w' records final) (hf : FoldsHead w records final) :
    Grows w w' where
  head := by
    intro key
    by_cases hk : key = final.key
    · subst hk
      simp [h.head, hf.version]
    · simp [h.head, Function.update_of_ne hk]
  participants := by
    intro key hsame
    by_cases hk : key = final.key
    · subst hk
      have hnil : records = [] := by
        have hlen : final.version = w.headVersion final.key := by simpa [h.head] using hsame
        have := hf.version
        exact List.length_eq_zero_iff.1 (by omega)
      simp [h.participants, hnil]
    · simp [h.participants, Function.update_of_ne hk]
  versions := ⟨_, h.versions.symm⟩
  events := ⟨_, h.events.symm⟩
  dlq := by rw [h.dlq]

theorem Extended.coherent (h : Extended w w' records final) (hf : FoldsHead w records final)
    (hw : Coherent w) : Coherent w' where
  represents := by
    intro key
    rcases hw.represents key with ⟨H, hH⟩
    have hversions : w.versions.rows <+: w'.versions.rows := ⟨_, h.versions.symm⟩
    by_cases hk : key = final.key
    · subst hk
      have hcons : Consecutive Record.version H.head records := hH.head ▸ hf.consecutive
      refine ⟨H.extend records hcons, ?_, ?_, ?_, ?_, ?_⟩
      · simpa [History.extend, World.checkpoint, h.base] using hH.base
      · simp [h.head, hf.version, hH.head]
      · intro r hr
        rcases List.mem_append.1 hr with hr | hr
        · exact ⟨(hH.rows r hr).1, hversions.subset (hH.rows r hr).2⟩
        · refine ⟨hf.keys r hr, ?_⟩
          rw [h.versions]
          exact List.mem_append_right _ (List.mem_map_of_mem hr)
      · simp [h.participants, hH.state]
      · intro s hs
        rcases hH.anchor s (by simpa [h.base] using hs) with ⟨hpos, row, hrow, hkey⟩
        exact ⟨hpos, row, hversions.subset hrow, hkey⟩
    · exact ⟨H, hH.keep (by simp [h.head, Function.update_of_ne hk])
        (by simp [h.participants, Function.update_of_ne hk]) (by rw [h.base]) hversions⟩
  installs := by
    intro i hi
    rw [h.installs] at hi
    rcases List.mem_append.1 hi with hi | hi
    · exact hw.installs i hi
    · have hi : i = (final, w'.participants final.key) := by simpa using hi
      subst hi
      calc
        final.participants = records.foldl Record.apply (w.participants final.key) := hf.participants
        _ = w'.participants final.key := by simp [h.participants]

variable {key : Key} {s : Snapshot}

theorem Restarted.lt (h : Restarted w w' key s) (hw : Coherent w)
    (hle : w.headVersion key ≤ s.fold.version) : w.headVersion key < s.fold.version := by
  rcases hw.represents key with ⟨H, hH⟩
  rcases Nat.eq_zero_or_pos (w.headVersion key) with hzero | hpos
  · rw [hzero]
    exact h.pos
  · rcases hH.exists_row_head hpos with ⟨row, hrow, hkey, hversion⟩
    have hne : row.version ≠ s.fold.version := fun heq => h.fresh row hrow ⟨hkey, heq⟩
    omega

theorem Restarted.grows (h : Restarted w w' key s) (hw : Coherent w)
    (hle : w.headVersion key ≤ s.fold.version) : Grows w w' where
  head := by
    intro k
    by_cases hk : k = key
    · subst hk
      simpa [h.head] using hle
    · simp [h.head, Function.update_of_ne hk]
  participants := by
    intro k hsame
    by_cases hk : k = key
    · subst hk
      have hlt := h.lt hw hle
      have : s.fold.version = w.headVersion k := by simpa [h.head] using hsame
      omega
    · simp [h.participants, Function.update_of_ne hk]
  versions := ⟨_, h.versions.symm⟩
  events := ⟨_, h.events.symm⟩
  dlq := h.dlq

theorem Restarted.coherent (h : Restarted w w' key s) (hw : Coherent w) : Coherent w' where
  represents := by
    intro k
    rcases hw.represents k with ⟨H, hH⟩
    by_cases hk : k = key
    · subst hk
      have hbase : w'.base k = some s := by simp [h.base]
      refine ⟨History.restart ⟨s.fold.version, s.fold.participants⟩, ?_, ?_, ?_, ?_, ?_⟩
      · simp [History.restart, World.checkpoint, hbase]
      · simp [h.head]
      · simp [History.restart]
      · simp [h.participants]
      · intro s' hs'
        have hs' : s = s' := by simpa [hbase] using hs'
        exact hs' ▸ ⟨h.pos, _, by rw [h.versions]; exact List.mem_append_right _ (List.mem_singleton_self _),
          rfl, rfl⟩
    · exact ⟨H, hH.keep (by simp [h.head, Function.update_of_ne hk])
        (by simp [h.participants, Function.update_of_ne hk])
        (by simp [h.base, Function.update_of_ne hk]) ⟨_, h.versions.symm⟩⟩
  installs := by simpa [h.installs] using hw.installs

end Preservation

end RelayPoint.Participation
