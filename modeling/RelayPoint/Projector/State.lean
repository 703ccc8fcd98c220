import Mathlib
import RelayPoint.Data.FinmapOps
import RelayPoint.Projector.Coverage
import RelayPoint.Signaling.Admission

/-!
# State — the facts, the fold and the feed messages of the projector

The worker keeps one `ParticipationView` per interaction, under the key `tenant/iid`.  A snapshot is
a copy of all intervals; restoring it gives views with the same intervals.  `Folds` relates the
worker's state to a prefix of the log; it is kept by applying the next fact of the log, also when
the fact was applied before.
-/

namespace RelayPoint.Projector

open Signaling

/-! ## Facts -/

/-- A delivered fact.  The event is nil if the envelope is corrupt; the interaction id comes from the
subject.  The delivery handle is the position in the log (see `Delivery`), and the trace header is
left out. -/
structure Fact where
  event : Option Event
  iid : String
  streamSeq : Nat
  deriving DecidableEq

def viewKey (e : Event) (iid : String) : String :=
  e.tenantId ++ "/" ++ iid

def eventsAt (log : List Fact) (key : String) : List Event :=
  log.filterMap fun f => f.event.filter fun e => viewKey e f.iid = key

/-! ## The state of the worker -/

structure State where
  views : Finmap fun _ : String => ParticipationView

structure Snapshot where
  intervals : Finmap fun _ : String => Finmap fun _ : String => List Interval

namespace State

def new : State :=
  ⟨∅⟩

def view (s : State) (key : String) : ParticipationView :=
  (s.views.lookup key).getD ParticipationView.new

def snapshot (s : State) : Snapshot :=
  ⟨FinmapOps.mapValues (fun _ v => v.intervals) s.views⟩

def restoreView (v : ParticipationView) (agents : Finmap fun _ : String => List Interval) :
    ParticipationView :=
  ⟨FinmapOps.filterValues (fun ins => !ins.isEmpty) agents ∪ v.intervals⟩

def restore (s : State) : Option Snapshot → State
  | none => s
  | some snap =>
    ⟨FinmapOps.mapValues (fun key agents => restoreView (s.view key) agents) snap.intervals ∪
      s.views⟩

def applyEvent (s : State) (e : Event) (iid : String) : State :=
  ⟨s.views.insert (viewKey e iid) ((s.view (viewKey e iid)).applyFact e)⟩

def applyFact (s : State) (f : Fact) : State :=
  match f.event with
  | none => s
  | some e => s.applyEvent e f.iid

theorem view_applyEvent_self (s : State) (e : Event) (iid : String) :
    (s.applyEvent e iid).view (viewKey e iid) = (s.view (viewKey e iid)).applyFact e := by
  simp [applyEvent, view]

theorem view_applyEvent_other (s : State) (e : Event) (iid : String) {key : String}
    (h : key ≠ viewKey e iid) : (s.applyEvent e iid).view key = s.view key := by
  simp [applyEvent, view, h]

theorem view_new (key : String) : new.view key = ParticipationView.new := by
  simp [new, view]

/-! ## Snapshots -/

theorem restore_new (snap : Snapshot) : new.restore (some snap) =
    ⟨FinmapOps.mapValues (fun _ agents => ⟨FinmapOps.filterValues (fun ins => !ins.isEmpty) agents⟩)
      snap.intervals⟩ := by
  simp [restore, restoreView, new, view, ParticipationView.new]

theorem intervalsOf_restore_snapshot (s : State) (key a : String) :
    ((new.restore (some s.snapshot)).view key).intervalsOf a = (s.view key).intervalsOf a := by
  simp only [restore_new, snapshot, view, FinmapOps.lookup_mapValues]
  cases s.views.lookup key with
  | none => rfl
  | some v =>
    -- an agent with an empty list is left out, and has no intervals either way
    simp only [Option.map_some, Option.getD_some, ParticipationView.intervalsOf,
      FinmapOps.lookup_filterValues]
    cases v.intervals.lookup a with
    | none => rfl
    | some ins =>
      cases ins with
      | nil | cons i is => rfl

/-! ## The fold -/

def FoldsAt (key : String) (s : State) (facts : List Fact) : Prop :=
  ∀ a, (s.view key).intervalsOf a = (ParticipationView.fold (eventsAt facts key)).intervalsOf a

def Folds (s : State) (facts : List Fact) : Prop :=
  ∀ key a, (s.view key).intervalsOf a =
    (ParticipationView.fold (eventsAt facts key)).intervalsOf a

variable {s : State} {facts : List Fact}

theorem folds_iff : s.Folds facts ↔ ∀ key, FoldsAt key s facts :=
  Iff.rfl

theorem foldsAt_new (key : String) : FoldsAt key new [] := by
  intro a
  simp [view_new, eventsAt]

theorem folds_new : new.Folds [] :=
  folds_iff.2 foldsAt_new

theorem FoldsAt.restore {key : String} (h : FoldsAt key s facts) :
    FoldsAt key (new.restore (some s.snapshot)) facts := by
  intro a
  rw [intervalsOf_restore_snapshot]
  exact h a

theorem Folds.restore (h : s.Folds facts) : (new.restore (some s.snapshot)).Folds facts :=
  folds_iff.2 fun key => (folds_iff.1 h key).restore

end State

theorem eventsAt_concat_self {facts : List Fact} {f : Fact} {e : Event} (he : f.event = some e) :
    eventsAt (facts ++ [f]) (viewKey e f.iid) = eventsAt facts (viewKey e f.iid) ++ [e] := by
  have hfilter : (some e).filter (fun e' => viewKey e' f.iid = viewKey e f.iid) = some e := by
    simp [Option.filter]
  simp only [eventsAt, List.filterMap_append, List.filterMap_cons, List.filterMap_nil, he, hfilter]

theorem eventsAt_concat_other {facts : List Fact} {f : Fact} {key : String}
    (h : ∀ e, f.event = some e → viewKey e f.iid ≠ key) :
    eventsAt (facts ++ [f]) key = eventsAt facts key := by
  cases he : f.event with
  | none => simp [eventsAt, he]
  | some e => simp [eventsAt, he, h e he]

namespace State

variable {key : String} {s : State} {facts : List Fact} {f : Fact}

theorem FoldsAt.other (h : FoldsAt key s facts)
    (hother : ∀ e, f.event = some e → viewKey e f.iid ≠ key) :
    FoldsAt key (s.applyFact f) (facts ++ [f]) := by
  intro a
  rw [eventsAt_concat_other hother]
  cases he : f.event with
  | none => simpa [applyFact, he] using h a
  | some e =>
    simp only [applyFact, he, view_applyEvent_other s e f.iid (hother e he).symm]
    exact h a

theorem FoldsAt.next (h : FoldsAt key s facts) (f : Fact) :
    FoldsAt key (s.applyFact f) (facts ++ [f]) := by
  by_cases hkey : ∃ e, f.event = some e ∧ viewKey e f.iid = key
  · rcases hkey with ⟨e, he, rfl⟩
    intro a
    simp only [applyFact, he, view_applyEvent_self, eventsAt_concat_self he,
      ParticipationView.fold_concat, ParticipationView.intervalsOf_applyFact, h a]
  · exact h.other fun e he hk => hkey ⟨e, he, hk⟩

theorem FoldsAt.again (h : FoldsAt key s (facts ++ [f])) :
    FoldsAt key (s.applyFact f) (facts ++ [f]) := by
  intro a
  cases he : f.event with
  | none => simpa [applyFact, he] using h a
  | some e =>
    by_cases hkey : key = viewKey e f.iid
    · subst hkey
      have hlast := ParticipationView.lastOnly_fold (eventsAt facts (viewKey e f.iid)) a
      have hcur := h a
      simp only [eventsAt_concat_self he, ParticipationView.fold_concat] at hcur ⊢
      simp only [applyFact, he, view_applyEvent_self, ParticipationView.intervalsOf_applyFact, hcur]
      exact ParticipationView.stepIntervals_idem hlast e a
    · simp only [applyFact, he, view_applyEvent_other s e f.iid hkey]
      exact h a

theorem FoldsAt.foldl (h : FoldsAt key s facts) (tail : List Fact) :
    FoldsAt key (tail.foldl applyFact s) (facts ++ tail) := by
  induction tail generalizing s facts with
  | nil => simpa using h
  | cons f tail ih => simpa using ih (h.next f)

theorem Folds.next (h : s.Folds facts) (f : Fact) : (s.applyFact f).Folds (facts ++ [f]) :=
  folds_iff.2 fun key => (folds_iff.1 h key).next f

theorem Folds.again (h : s.Folds (facts ++ [f])) : (s.applyFact f).Folds (facts ++ [f]) :=
  folds_iff.2 fun key => (folds_iff.1 h key).again

theorem Folds.foldl (h : s.Folds facts) (tail : List Fact) :
    (tail.foldl applyFact s).Folds (facts ++ tail) :=
  folds_iff.2 fun key => (folds_iff.1 h key).foldl tail

end State

/-! ## Feed messages -/

structure FeedControl where
  schema : String
  control : String
  interactionId : String
  atSequence : Int
  deriving DecidableEq

inductive Body where
  | event (e : Event)
  | control (c : FeedControl)
  deriving DecidableEq

structure FeedMsg where
  tenant : String
  agent : String
  iid : String
  dedup : String
  payload : Body
  deriving DecidableEq

def eventID (tenant agent iid : String) (seq : Int) : String :=
  tenant ++ "." ++ agent ++ "." ++ iid ++ "." ++ seq.repr

def tombstoneID (tenant agent iid : String) (seq : Int) : String :=
  eventID tenant agent iid seq ++ ".revoked"

def eventMsg (e : Event) (iid agent : String) : FeedMsg where
  tenant := e.tenantId
  agent := agent
  iid := iid
  dedup := eventID e.tenantId agent iid e.sequence
  payload := .event e

def tombstoneMsg (e : Event) (iid : String) : FeedMsg where
  tenant := e.tenantId
  agent := e.actorId
  iid := iid
  dedup := tombstoneID e.tenantId e.actorId iid e.sequence
  payload := .control ⟨schemaV1, "feed.revoked", iid, e.sequence⟩

theorem eq_of_append_cons_eq_last {x : Char} {a a' b b' : List Char} (hb : x ∉ b) (hb' : x ∉ b')
    (h : a ++ x :: b = a' ++ x :: b') : a = a' ∧ b = b' := by
  have hrev : b.reverse ++ x :: a.reverse = b'.reverse ++ x :: a'.reverse := by
    simpa using congrArg List.reverse h
  have hcut := eq_of_append_cons_eq (by simpa using hb) (by simpa using hb') hrev
  exact ⟨List.reverse_injective hcut.2, List.reverse_injective hcut.1⟩

theorem mem_repr {seq : Int} {c : Char} (h : c ∈ seq.repr.toList) : c.isDigit = true ∨ c = '-' := by
  have hnat : ∀ n : Nat, c ∈ n.repr.toList → c.isDigit = true := by
    intro n hn
    rw [Nat.repr_eq_ofList_toDigits, String.toList_ofList] at hn
    exact Nat.isDigit_of_mem_toDigits (by decide) (by decide) hn
  rw [Int.repr_eq_if] at h
  split at h
  · exact .inl (hnat _ h)
  · rw [String.toList_append] at h
    rcases List.mem_append.1 h with h | h
    · exact .inr (by simpa using h)
    · exact .inl (hnat _ h)

theorem dotFree_repr (seq : Int) : DotFree seq.repr := by
  intro h
  rcases mem_repr h with h | h
  · simp at h
  · simp at h

variable {t a i t' a' i' : String} {s s' : Int}

theorem eventID_injective (ht : DotFree t) (ht' : DotFree t') (hi : DotFree i) (hi' : DotFree i')
    (h : eventID t a i s = eventID t' a' i' s') : t = t' ∧ a = a' ∧ i = i' ∧ s = s' := by
  have hlist : t.toList ++ '.' :: (a.toList ++ '.' :: (i.toList ++ '.' :: s.repr.toList)) =
      t'.toList ++ '.' :: (a'.toList ++ '.' :: (i'.toList ++ '.' :: s'.repr.toList)) := by
    simpa [eventID] using congrArg String.toList h
  -- the tenant is cut off at the first dot, the sequence and the interaction at the last two
  rcases eq_of_append_cons_eq ht ht' hlist with ⟨h₁, hrest⟩
  have hrest : (a.toList ++ '.' :: i.toList) ++ '.' :: s.repr.toList =
      (a'.toList ++ '.' :: i'.toList) ++ '.' :: s'.repr.toList := by
    simpa using hrest
  rcases eq_of_append_cons_eq_last (dotFree_repr s) (dotFree_repr s') hrest with ⟨hagent, h₄⟩
  rcases eq_of_append_cons_eq_last hi hi' hagent with ⟨h₂, h₃⟩
  exact ⟨String.toList_inj.1 h₁, String.toList_inj.1 h₂, String.toList_inj.1 h₃,
    Int.repr_inj.1 (String.toList_inj.1 h₄)⟩

theorem eventID_ne_tombstoneID : eventID t a i s ≠ tombstoneID t' a' i' s' := by
  intro h
  have hlist : (t.toList ++ '.' :: (a.toList ++ '.' :: i.toList)) ++ '.' :: s.repr.toList =
      (eventID t' a' i' s').toList ++ '.' :: "revoked".toList := by
    simpa [eventID, tombstoneID] using congrArg String.toList h
  rcases eq_of_append_cons_eq_last (dotFree_repr s) (by decide) hlist with ⟨_, hseq⟩
  have hr : 'r' ∈ s.repr.toList := by
    rw [hseq]
    decide
  rcases mem_repr hr with h | h
  · simp at h
  · simp at h

theorem tombstoneID_injective (ht : DotFree t) (ht' : DotFree t') (hi : DotFree i)
    (hi' : DotFree i') (h : tombstoneID t a i s = tombstoneID t' a' i' s') :
    t = t' ∧ a = a' ∧ i = i' ∧ s = s' := by
  have hlist : (eventID t a i s).toList ++ ".revoked".toList =
      (eventID t' a' i' s').toList ++ ".revoked".toList := by
    simpa [tombstoneID] using congrArg String.toList h
  exact eventID_injective ht ht' hi hi' (String.toList_inj.1 (List.append_cancel_right hlist))

/-- The broker never takes one message for another: a message id of the router stands for one command,
one of the projector for one fact or one tombstone in one feed, dots in command ids and agents
notwithstanding. -/
theorem message_ids_unambiguous :
    (∀ t i c t' i' c' : String, DotFree t → DotFree i → DotFree t' → DotFree i' →
      dedupID t i c = dedupID t' i' c' → t = t' ∧ i = i' ∧ c = c') ∧
    ∀ (t a i t' a' i' : String) (s s' : Int), DotFree t → DotFree i → DotFree t' → DotFree i' →
      (eventID t a i s = eventID t' a' i' s' → t = t' ∧ a = a' ∧ i = i' ∧ s = s') ∧
      (tombstoneID t a i s = tombstoneID t' a' i' s' → t = t' ∧ a = a' ∧ i = i' ∧ s = s') ∧
      eventID t a i s ≠ tombstoneID t' a' i' s' := by
  constructor
  · intro t i c t' i' c' ht hi ht' hi'
    exact dedupID_injective ht hi ht' hi'
  · intro t a i t' a' i' s s' ht hi ht' hi'
    exact ⟨eventID_injective ht ht' hi hi', tombstoneID_injective ht ht' hi hi',
      eventID_ne_tombstoneID⟩

/-- An agent whose name looks like the end of an id. -/
theorem message_ids_unambiguous_dotted :
    eventID "t" "a.i.7.revoked" "i" 7 ≠ eventID "t" "a" "i" 7 ∧
      eventID "t" "a.i.7.revoked" "i" 7 ≠ tombstoneID "t" "a" "i" 7 := by
  have hids := message_ids_unambiguous.2 "t" "a.i.7.revoked" "i" "t" "a" "i" 7 7 (by decide)
    (by decide) (by decide) (by decide)
  refine ⟨?_, hids.2.2⟩
  intro h
  exact absurd (hids.1 h).2.1 (by decide)

end RelayPoint.Projector
