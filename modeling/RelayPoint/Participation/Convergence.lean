import RelayPoint.Participation.Recovery

/-!
# Convergence — deliveries in any order

The commands of a history are delivered in any order, some of them several times and some not at all.
A command at or below the head is a duplicate, the next one is installed, and one further on brings
everything before it along.  So after every delivery the store is the plain fold of the history up to
the highest version delivered, and no intent is left behind.
-/

namespace RelayPoint.Participation

open Concurrency Journal

def applyAll (principal : Principal) : List Record → Program (List Outcome)
  | [] => return []
  | r :: rs => do
    let outcome ← apply principal r.command
    let outcomes ← applyAll principal rs
    return outcome :: outcomes

structure UpTo (h : AuthorityHistory) (m : Nat) (w : World) : Prop where
  head : w.headVersion h.key = m
  participants : w.participants h.key = (h.records.take m).foldl Record.apply ∅
  versions : w.versions.rows = (h.records.take m).map VersionRow.of
  events : w.events.rows = (h.records.take m).map EventRow.of
  pending : ∀ row ∈ w.pending.rows, ∃ r ∈ h.records.take m,
    row.eventId = r.identity.eventId ∧ row.version = r.version
  idle : ∀ row ∈ w.intents.rows, row.status ≠ .pending

section Converge

variable {h : AuthorityHistory} {m : Nat} {w w' : World} {r : Record}

theorem upTo_empty : UpTo h 0 World.empty :=
  ⟨rfl, by simp [World.empty], by simp [World.empty], by simp [World.empty], by simp [World.empty],
    by simp [World.empty]⟩

namespace UpTo

theorem separate {held : Record} (hr : r ∈ h.gap m held) :
    ∀ s ∈ h.records.take m, AuthorityHistory.Separate s r := by
  intro s hs
  have hpair := h.pairwise_separate
  rw [← List.take_append_drop m h.records] at hpair
  exact (List.pairwise_append.1 hpair).2.2 s hs r (List.mem_of_mem_take hr)

theorem fresh (hw : UpTo h m w) {held : Record} (hr : r ∈ h.gap m held) : w.Fresh r where
  version := by
    intro row hrow
    rw [hw.versions] at hrow
    rcases List.mem_map.1 hrow with ⟨s, hs, rfl⟩
    rintro ⟨_, hv⟩
    exact (separate hr s hs).1 hv
  event := by
    intro row hrow
    rw [hw.events] at hrow
    rcases List.mem_map.1 hrow with ⟨s, hs, rfl⟩
    rintro (⟨_, hid⟩ | ⟨_, hv⟩)
    · exact (separate hr s hs).2 hid
    · exact (separate hr s hs).1 hv

theorem unblocked (hw : UpTo h m w) (hr : r ∈ h.records) (hm : m < r.version) :
    w.unblocked r = true := by
  have hnone : w.pendingIntent r.key = none := by
    refine List.find?_eq_none.2 ?_
    intro row hrow
    simp [hw.idle row hrow]
  unfold World.unblocked
  rw [hnone]
  refine List.all_eq_true.2 ?_
  intro row hrow
  rcases hw.pending row hrow with ⟨s, hs, hid, hv⟩
  have hsep := separate (AuthorityHistory.mem_gap hr hm) s hs
  simp [hid, hv, hsep.1, hsep.2]

theorem retained (hw : UpTo h m w) (hr : r ∈ h.records) (hm : r.version ≤ m) :
    w.retained r.key r.version = some r.identity := by
  have hmem : VersionRow.of r ∈ w.versions.rows := by
    rw [hw.versions]
    refine List.mem_map_of_mem (List.mem_of_getElem? (i := r.version - (0 + 1)) ?_)
    have hpos := r.version_pos
    rw [List.getElem?_take_of_lt (by omega)]
    exact (h.versions.of_mem hr).2.2
  unfold World.retained
  cases hfind : w.versions.rows.find? fun row => row.key = r.key ∧ row.version = r.version with
  | none =>
    have := List.find?_eq_none.1 hfind _ hmem
    simp [VersionRow.of] at this
  | some row =>
    have hrow : row.key = r.key ∧ row.version = r.version := by simpa using List.find?_some hfind
    have hsame : row = VersionRow.of r := w.versions.mem_eq_of_clash VersionRow.clash_symm
      (List.mem_of_find?_eq_some hfind) hmem hrow
    rw [hsame]
    rfl

theorem take_gap (hm : m < r.version) :
    h.records.take m ++ h.gap m r = h.records.take r.version := by
  rw [AuthorityHistory.gap_eq]
  exact take_append_window hm.le

theorem caughtUp (hw : UpTo h m w) (hr : r ∈ h.records) (hm : m < r.version)
    (hup : CaughtUp w w' r (h.gap m r)) : UpTo h r.version w' := by
  have hkey := h.keys r hr
  refine ⟨?_, ?_, ?_, ?_, ?_, ?_⟩
  · simp [hup.head, hkey]
  · rw [← take_gap hm, List.foldl_append, ← hw.participants, ← hkey]
    exact hup.participants
  · rw [hup.versions, hw.versions, ← List.map_append, take_gap hm]
  · rw [hup.events, hw.events, ← List.map_append, take_gap hm]
  · intro row hrow
    rw [← take_gap hm]
    rcases hup.pending row hrow with ⟨old, hold, _, hid, hv⟩ | ⟨_, hid, hv⟩
    · rcases hw.pending old hold with ⟨s, hs, hsid, hsv⟩
      exact ⟨s, List.mem_append_left _ hs, hid.trans hsid, hv.trans hsv⟩
    · exact ⟨r, List.mem_append_right _ (AuthorityHistory.mem_gap hr hm), hid, hv⟩
  · intro row hrow hstatus
    exact hw.idle row (hup.intents row hrow hstatus) hstatus

end UpTo

def Outcome.settled (o : Outcome) : Prop :=
  o = ⟨some .applied, none⟩ ∨ o = ⟨some .duplicate, none⟩

theorem serves_delivery (hw : UpTo h m w) (hr : r ∈ h.records) :
    Serves machine h.Honest (fun o w' => o.settled ∧ UpTo h (max m r.version) w') (applyRecord r) w := by
  have hkey := h.keys r hr
  have hhead : w.headVersion r.key = m := hkey ▸ hw.head
  by_cases hm : m < r.version
  · have hserves := serves_applyRecord hr (hhead ▸ hm) (fun _ => hw.unblocked hr hm)
      (hhead.symm ▸ fun _ hs => hw.fresh hs)
    refine Serves.mono ?_ hserves
    rintro o w' ⟨ho, hup⟩
    rw [hhead] at hup
    rw [Nat.max_eq_right hm.le]
    exact ⟨.inl ho, hw.caughtUp hr hm hup⟩
  · have hle : r.version ≤ m := Nat.le_of_not_lt hm
    refine serves_bind (serves_load r.version_pos.ne' (AuthorityHistory.fits hr) ?_)
    intro fold _ hversion
    have hbelow : r.version ≤ fold.version := by omega
    simp only [applyLoaded, hbelow, hw.retained hr hle]
    have hsame : sameIdentity r.identity r.identity = true := by simp [sameIdentity]
    simp only [hsame]
    rw [Nat.max_eq_left hle]
    exact serves_pure ⟨.inr rfl, hw⟩

theorem serves_applyAll {principal : Principal} (htenant : principal.tenantId = h.key.tenantId)
    (hgrant : validTransportGrant principal.grant capabilityWrite = true) {deliveries : List Record} :
    ∀ {m : Nat} {w : World}, UpTo h m w → (∀ r ∈ deliveries, r ∈ h.records) →
      Serves machine h.Honest (fun os w' => os.length = deliveries.length ∧ (∀ o ∈ os, o.settled) ∧
        UpTo h ((deliveries.map Record.version).foldl max m) w') (applyAll principal deliveries) w := by
  induction deliveries with
  | nil =>
    intro m w hw _
    exact serves_pure ⟨rfl, by simp, hw⟩
  | cons r rs ih =>
    intro m w hw hds
    have hr : r ∈ h.records := hds r (by simp)
    have hcaller : principal.tenantId = r.command.tenantId :=
      htenant.trans (congrArg Key.tenantId (h.keys r hr)).symm
    unfold applyAll
    rw [apply_authorized r hcaller hgrant]
    refine serves_bind (Serves.mono ?_ (serves_delivery hw hr))
    rintro o w₁ ⟨ho, hw₁⟩
    refine serves_bind (Serves.mono ?_ (ih hw₁ fun s hs => hds s (by simp [hs])))
    rintro os w₂ ⟨hlen, hos, hw₂⟩
    refine serves_pure ⟨by simp [hlen], ?_, hw₂⟩
    intro o' ho'
    rcases List.mem_cons.1 ho' with rfl | ho'
    · exact ho
    · exact hos o' ho'

theorem foldl_max_le {n : Nat} {vs : List Nat} :
    ∀ {b : Nat}, b ≤ n → (∀ v ∈ vs, v ≤ n) → vs.foldl max b ≤ n := by
  induction vs with
  | nil =>
    intro b hb _
    exact hb
  | cons v vs ih =>
    intro b hb hvs
    exact ih (max_le hb (hvs v (by simp))) fun u hu => hvs u (by simp [hu])

/-- Deliveries of commands of one history, in any order and with any repetitions and omissions, leave
the fold of the history up to the highest version delivered. -/
theorem deliveries_converge {principal : Principal} (htenant : principal.tenantId = h.key.tenantId)
    (hgrant : validTransportGrant principal.grant capabilityWrite = true) {deliveries : List Record}
    (hds : ∀ r ∈ deliveries, r ∈ h.records) :
    Serves machine h.Honest
      (fun os w => os.length = deliveries.length ∧
        (∀ o ∈ os, o = ⟨some .applied, none⟩ ∨ o = ⟨some .duplicate, none⟩) ∧
        (∃ fold, foldRecords (Fold.initial h.key)
            (h.records.take ((deliveries.map Record.version).foldl max 0)) = .ok fold ∧
          fold.version = (deliveries.map Record.version).foldl max 0 ∧
          w.headVersion h.key = fold.version ∧ w.participants h.key = fold.participants) ∧
        ∀ row ∈ w.intents.rows, row.status ≠ .pending)
      (applyAll principal deliveries) World.empty := by
  refine Serves.mono ?_ (serves_applyAll htenant hgrant upTo_empty hds)
  rintro os w ⟨hlen, hos, hw⟩
  refine ⟨hlen, hos, ?_, hw.idle⟩
  have hle : (deliveries.map Record.version).foldl max 0 ≤ h.records.length := by
    refine foldl_max_le (Nat.zero_le _) ?_
    intro v hv
    rcases List.mem_map.1 hv with ⟨r, hr, rfl⟩
    exact AuthorityHistory.version_le (hds r hr)
  generalize (deliveries.map Record.version).foldl max 0 = m at hle hw ⊢
  have hkeys : ∀ r ∈ h.records.take m, r.key = (Fold.initial h.key).key := fun r hr =>
    h.keys r (List.mem_of_mem_take hr)
  rcases foldRecords_total hkeys (h.versions.take m) with ⟨fold, hfold⟩
  have hf := foldRecords_ok hfold
  have hversion : fold.version = m := by
    rw [hf.version]
    simp [Fold.initial, hle]
  refine ⟨fold, hfold, hversion, hw.head.trans hversion.symm, ?_⟩
  rw [hw.participants, hf.participants]
  rfl

end Converge

namespace Scenario

theorem wellFormed_first : wellFormed first = true := by
  decide +kernel

theorem wellFormed_second : wellFormed second = true := by
  decide +kernel

def firstRecord : Record :=
  ⟨first, wellFormed_first⟩

def secondRecord : Record :=
  ⟨second, wellFormed_second⟩

def outOfOrder : List Record :=
  [secondRecord, firstRecord]

/-- The authority's answer to a request for the first two commands, while it has no others. -/
def replayOfBoth : Choice :=
  .replayed (.ok (some ⟨[first, second], 2, second.eventId, secondRecord.identity.hash.1, 1,
    "history"⟩))

end Scenario

open Scenario in
theorem deliveries_converge_outOfOrder :
    ∃ w, exec machine history.Honest
        [.go, .go, .id token, .go, replayOfBoth, .go, .go, .go, .go]
        (applyAll caller outOfOrder) World.empty =
          some ([⟨some .applied, none⟩, ⟨some .duplicate, none⟩], w) ∧
      w.participants key = {alice, bob} ∧
      ∃ fold, foldRecords (Fold.initial key) (history.records.take 2) = .ok fold ∧
        w.participants key = fold.participants := by
  have hrun : ((exec machine history.Honest
      [.go, .go, .id token, .go, replayOfBoth, .go, .go, .go, .go]
      (applyAll caller outOfOrder) World.empty).map fun p => (p.1, p.2.participants key)) =
        some ([⟨some .applied, none⟩, ⟨some .duplicate, none⟩], {alice, bob}) := by
    decide +kernel
  rcases Option.map_eq_some_iff.1 hrun with ⟨⟨os, w⟩, hexec, heq⟩
  simp only [Prod.mk.injEq] at heq
  have hds : ∀ r ∈ outOfOrder, r ∈ history.records := by
    simp [outOfOrder, history, firstRecord, secondRecord]
  have hcaller : caller.tenantId = history.key.tenantId := rfl
  have hserves := deliveries_converge hcaller (by decide) hds
  rcases (hserves.exec hexec).2.2.1 with ⟨fold, hfold, _, _, hparticipants⟩
  rw [heq.1] at hexec
  exact ⟨w, hexec, heq.2, fold, hfold, hparticipants⟩

end RelayPoint.Participation
