import RelayPoint.RouteProjection.Recovery

/-!
# Batches — a replayed gap against the same facts one at a time

Facts can reach the projection in two ways: one call of `Apply` for each, or a single call for the
last one, which finds a gap and installs what the router replays in one transaction.  The first way
writes the state down after every fact and reads it back before the next; the second way folds all of
them in memory.  The two agree because a head row forgets nothing that a later fact builds on.
-/

namespace RelayPoint.RouteProjection

open Concurrency Journal
open Participation (Key isUuidv7 fitsBigint)

/-! ## States and the rows they are stored in -/

def Alike (s t : FoldedState) : Prop :=
  ∃ leaseUntil, t = { s with leaseUntil } ∧ nullableTime s.leaseUntil = nullableTime leaseUntil

structure Lasting (s : FoldedState) : Prop where
  shown : s.visibility = .hidden ∨ s.visibility = .visible
  authorization : ∃ v, uuidColumn s.deliveryAuthorizationId = some v ∧
    uuidText v = s.deliveryAuthorizationId
  receipt : ∃ v, uuidColumn s.receiptId = some v ∧ uuidText v = s.receiptId
  lease : s.leaseUntil = 0 ∨ s.leaseUntil / 1000 ≠ 0

def lastingFact (f : RouteFact) : Bool :=
  f.kind ≠ .ringing || f.leaseUntil / 1000 ≠ 0

section Alike

variable {s t : FoldedState} {f : RouteFact} {row : HeadRow}

theorem headRow_congr (h : Alike s t) : headRow s = headRow t := by
  rcases h with ⟨leaseUntil, rfl, hlease⟩
  simp only [headRow, hlease]

theorem Alike.refl (s : FoldedState) : Alike s s :=
  ⟨s.leaseUntil, rfl, rfl⟩

theorem Alike.apply (h : Alike s t) (f : RouteFact) : Alike (s.apply f) (t.apply f) := by
  rcases h with ⟨leaseUntil, rfl, hlease⟩
  cases hkind : f.kind with
  -- These two say what the lease is.
  | ringing => exact ⟨f.leaseUntil, by simp [FoldedState.apply, hkind], by simp [FoldedState.apply, hkind]⟩
  | terminal => exact ⟨0, by simp [FoldedState.apply, hkind], by simp [FoldedState.apply, hkind]⟩
  -- These two keep the one before.
  | reserved =>
    refine ⟨leaseUntil, by simp [FoldedState.apply, hkind], ?_⟩
    simpa [FoldedState.apply, hkind] using hlease
  | unrecognized byte =>
    refine ⟨leaseUntil, by simp [FoldedState.apply, hkind], ?_⟩
    simpa [FoldedState.apply, hkind] using hlease

theorem lasting_state (row : HeadRow) : Lasting row.state where
  shown := by
    simp only [HeadRow.state]
    split
    · exact .inr rfl
    · exact .inl rfl
  authorization := ⟨_, uuidColumn_uuidText _, rfl⟩
  receipt := ⟨_, uuidColumn_uuidText _, rfl⟩
  lease := by
    cases hlease : row.leaseUntil with
    | none => exact .inl (by simp [HeadRow.state, hlease, timeOf])
    | some micros =>
      simp only [HeadRow.state, hlease, timeOf]
      omega

theorem Lasting.apply (hs : Lasting s) (hvalid : validateFact f = true)
    (hlasting : lastingFact f = true) : Lasting (s.apply f) := by
  cases hkind : f.kind with
  | ringing =>
    simp only [validateFact, validKind, hkind, Bool.and_eq_true] at hvalid
    obtain ⟨_, ⟨⟨hid, hreceipt⟩, _⟩, _⟩ := hvalid
    rcases uuidColumn_of_isUuidv7 hid with ⟨v, hv, hvid⟩
    rcases uuidColumn_of_isUuidv7 hreceipt with ⟨v', hv', hvid'⟩
    have hlease : f.leaseUntil / 1000 ≠ 0 := by simpa [lastingFact, hkind] using hlasting
    simp only [FoldedState.apply, hkind]
    exact ⟨.inr rfl, ⟨some v, hv, hvid⟩, ⟨some v', hv', hvid'⟩, .inr hlease⟩
  | reserved =>
    simp only [FoldedState.apply, hkind]
    exact ⟨.inl rfl, hs.authorization, hs.receipt, hs.lease⟩
  | terminal =>
    simp only [FoldedState.apply, hkind]
    exact ⟨.inl rfl, hs.authorization, hs.receipt, .inl rfl⟩
  | unrecognized byte => simp [validateFact, validKind, hkind] at hvalid

theorem nullableTime_timeOf {t : Int} (h : t = 0 ∨ t / 1000 ≠ 0) :
    nullableTime t = nullableTime (timeOf (nullableTime t)) := by
  rcases h with rfl | h
  · rfl
  · have ht : t ≠ 0 := by
      rintro rfl
      exact h rfl
    simp [nullableTime, timeOf, ht, h]

theorem Lasting.alike (hs : Lasting s) (hrow : headRow s = some row) : Alike s row.state := by
  rcases headRow_some hrow with ⟨hversion, hvisible, hauthorization, hreceipt, hgeneration, hlease⟩
  rcases hs.authorization with ⟨v, hv, hvid⟩
  rcases hs.receipt with ⟨v', hv', hvid'⟩
  rw [hauthorization] at hv
  rw [hreceipt] at hv'
  cases hv
  cases hv'
  have hvisibility : (if row.visible then Visibility.visible else .hidden) = s.visibility := by
    rcases hs.shown with h | h <;> simp [hvisible, h]
  rcases headRow_identity hrow with ⟨heventId, hhash⟩
  refine ⟨timeOf row.leaseUntil, ?_, ?_⟩
  · simp [HeadRow.state, hversion, heventId, hhash, hvisibility, hvid, hvid', hgeneration]
  · rw [hlease]
    exact nullableTime_timeOf hs.lease

end Alike

/-! ## One at a time -/

def applyEach : List RouteFact → Program (List Outcome)
  | [] => return []
  | f :: fs => do
    let o ← apply f
    let os ← applyEach fs
    return o :: os

section Each

variable {ok : World → Op → Choice → Prop} {w w₁ w₂ : World} {key : Key} {row row₁ : HeadRow}
  {f : RouteFact} {fs gs : List RouteFact}

theorem Extended.trans (h : Extended w w₁ key row₁ fs) (h' : Extended w₁ w₂ key row gs) :
    Extended w w₂ key row (fs ++ gs) where
  delivery := h'.delivery.trans h.delivery
  now := h'.now.trans h.now
  heads := by rw [h'.heads, h.heads, Function.update_idem]
  installed := by simp [h'.installed, h.installed]
  versions := by simp [h'.versions, h.versions]
  events := by simp [h'.events, h.events]

theorem Missing.head (h : Missing w key (f :: fs)) : Missing w key [f] where
  keys := by simpa using h.keys f (by simp)
  valid := by simpa using h.valid f (by simp)
  versions := consecutive_cons.2 ⟨(consecutive_cons.1 h.versions).1, consecutive_nil⟩
  separate := by simp
  storable := by simpa using h.storable f (by simp)
  fresh := by simpa using h.fresh f (by simp)
  bound := by simpa using h.bound f (by simp)

theorem Missing.tail (h : Missing w key (f :: fs)) (hext : Extended w w₁ key row [f])
    (hversion : row.version = f.version) : Missing w₁ key fs where
  keys := fun g hg => h.keys g (by simp [hg])
  valid := fun g hg => h.valid g (by simp [hg])
  versions := by
    rcases consecutive_cons.1 h.versions with ⟨hf, hrest⟩
    rwa [hext.headVersion, hversion, hf]
  separate := (List.pairwise_cons.1 h.separate).2
  storable := fun g hg => h.storable g (by simp [hg])
  fresh := fun g hg => (h.fresh g (by simp [hg])).of_insert ((List.pairwise_cons.1 h.separate).1 g hg)
    hext.versions hext.events
  bound := by
    intro g hg hring
    have hbound := h.bound g (by simp [hg]) hring
    unfold World.bound at hbound ⊢
    rwa [hext.delivery]

theorem through_apply_next (hok : Working ok) (hm : Missing w f.key [f]) :
    ServesThrough machine ok (Keeps w) (Recovered w f.key [f]) (apply f) w := by
  have hmem : f ∈ [f] := by simp
  refine through_apply hok (Keeps.refl w) (hm.valid f hmem) (hm.fits f hmem) ?_
  intro p hp hstate
  have hversion : p.version = w.headVersion f.key := by
    rw [Projection.version, hstate, version_state]
  have hnext : f.version = p.version + 1 := by
    rw [hversion]
    exact (consecutive_cons.1 hm.versions).1
  have hnot : ¬ f.version ≤ p.version := by omega
  have hnear : ¬ p.version + 1 < f.version := by omega
  simp only [applyLoaded, hnot, hnear]
  refine servesThrough_bind (ServesThrough.mono (fun _ h => h) ?_
    (through_validateAuthorizationBindings hok (Keeps.refl w) hm.bound))
  rintro res w' ⟨rfl, rfl⟩
  simp only [hm.fold (by simp) hp hstate]
  rcases Store.installBatch_total hmem (fun g hg => hm.keys g hg) hm.storable hm.fresh hm.separate
    hm.storable_final with ⟨row, w₁, hrow, hinstall, hext⟩
  refine servesThrough_perform (Keeps.refl w') ?_
  intro ch hch
  obtain rfl := hok rfl hch
  rw [hversion]
  exact ⟨.ok true, w₁, transact_go hinstall, servesThrough_pure ⟨rfl, row, hrow, hext⟩⟩

theorem serves_applyEach (hok : Working ok) : ∀ {w : World} {s : FoldedState}, fs ≠ [] →
    Missing w key fs → (∀ g ∈ fs, lastingFact g = true) → Lasting s → Alike s (w.state key) →
    Serves machine ok (fun os w' => os = fs.map (fun _ => ⟨some .applied, none⟩) ∧
      ∃ row, headRow (fs.foldl FoldedState.apply s) = some row ∧ Extended w w' key row fs)
      (applyEach fs) w := by
  induction fs with
  | nil =>
    intro w s hne
    exact absurd rfl hne
  | cons f fs ih =>
    intro w s _ hm hlasting hs hlike
    obtain rfl := hm.keys f (by simp)
    refine serves_bind (Serves.mono ?_ (through_apply_next hok hm.head).serves)
    rintro o w₁ ⟨rfl, row₁, hrow₁, hext₁⟩
    have hrow₁ : headRow (s.apply f) = some row₁ := (headRow_congr (hlike.apply f)).trans hrow₁
    by_cases hlast : fs = []
    · subst hlast
      exact serves_pure ⟨rfl, row₁, hrow₁, hext₁⟩
    · have hversion : row₁.version = f.version :=
        (headRow_some hrow₁).1.trans (version_apply s f)
      have hs₁ : Lasting (s.apply f) := hs.apply (hm.valid f (by simp)) (hlasting f (by simp))
      have hlike₁ : Alike (s.apply f) (w₁.state f.key) := by
        have hstate : w₁.state f.key = row₁.state := by simp [World.state, hext₁.heads]
        rw [hstate]
        exact hs₁.alike hrow₁
      refine serves_bind (Serves.mono ?_ (ih hlast (hm.tail hext₁ hversion)
        (fun g hg => hlasting g (by simp [hg])) hs₁ hlike₁))
      rintro os w₂ ⟨rfl, row₂, hrow₂, hext₂⟩
      exact serves_pure ⟨rfl, row₂, hrow₂, hext₁.trans hext₂⟩

end Each

/-! ## The gap -/

/-- Valid facts of the interaction that continue its head, with new event ids and, where they ring,
with the deliveries they ring for. -/
structure Continues (w : World) (key : Key) (facts : List RouteFact) : Prop where
  keys : ∀ f ∈ facts, f.key = key
  valid : ∀ f ∈ facts, validateFact f = true
  versions : Consecutive RouteFact.version (w.headVersion key) facts
  distinct : (facts.map RouteFact.eventId).Nodup
  new : ∀ f ∈ facts, ∀ row ∈ w.events.rows,
    ¬ (row.key.tenantId = key.tenantId ∧ row.eventId = f.eventId)
  bound : ∀ f ∈ facts, f.kind = .ringing → w.bound f

/-- The columns hold all that there is to the facts, and the ledgers nothing of the interaction above
its head. -/
structure Keepable (w : World) (key : Key) (facts : List RouteFact) : Prop where
  storable : ∀ f ∈ facts, storableFact f = true
  lasting : ∀ f ∈ facts, lastingFact f = true
  versions : ∀ row ∈ w.versions.rows, row.key = key → row.version ≤ w.headVersion key
  events : ∀ row ∈ w.events.rows, row.key = key → row.version ≤ w.headVersion key

/-- The store works, tokens are new, and the router replays the requested range of these facts. -/
def replays (key : Key) (facts : List RouteFact) (w : World) : Op → Choice → Bool
  | .ids, .id token => isUuidv7 token &&
      w.intents.rows.all fun row => ! (row.key.tenantId = key.tenantId && row.token = token)
  | .ids, _ => false
  | .replayRouteFacts _ request, .replayed (.ok replay) =>
    replay.facts = facts.filter (fun f => request.fromVersion ≤ f.version &&
      f.version ≤ request.toVersion) && request.toVersion ≤ replay.routerHead
  | .replayRouteFacts _ _, _ => false
  | .getRouteSnapshot _ _, _ => true
  | .append _, _ => true
  | _, ch => ch = .go

def Replays (key : Key) (facts : List RouteFact) (w : World) (op : Op) (ch : Choice) : Prop :=
  replays key facts w op ch = true
  deriving Decidable

section Gap

variable {w : World} {key : Key} {held : RouteFact} {facts : List RouteFact}

theorem Continues.missing (hc : Continues w key facts) (hk : Keepable w key facts) :
    Missing w key facts where
  keys := hc.keys
  valid := hc.valid
  versions := hc.versions
  separate := List.pairwise_and_iff.2 ⟨hc.versions.pairwise_ne, List.pairwise_map.1 hc.distinct⟩
  storable := hk.storable
  fresh := by
    intro f hf
    have hkey := hc.keys f hf
    have habove := (hc.versions.of_mem hf).1
    refine ⟨?_, ?_⟩
    · rintro row hrow ⟨hrkey, hversion⟩
      have hle := hk.versions row hrow (hrkey.trans hkey)
      have hversion : row.version = f.version := hversion
      omega
    · rintro row hrow (⟨htenant, heventId⟩ | ⟨hrkey, hversion⟩)
      · exact hc.new f hf row hrow ⟨htenant.trans (congrArg Key.tenantId hkey), heventId⟩
      · have hle := hk.events row hrow (hrkey.trans hkey)
        have hversion : row.version = f.version := hversion
        omega
  bound := hc.bound

theorem working_replays : Working (Replays key facts) := by
  intro w op ch hop hok
  cases op with
  | append _ | ids | replayRouteFacts _ _ | getRouteSnapshot _ _ => cases hop
  | _ => simpa [Replays, replays] using hok

theorem supplies_replays (hc : Continues w held.key facts) (hlast : facts.getLast? = some held) :
    Supplies (Replays held.key facts) (w.headVersion held.key + 1) held facts where
  store := working_replays
  ids := by
    intro w' ch hok
    cases ch with
    | id token =>
      simp only [Replays, replays, Bool.and_eq_true, List.all_eq_true, Bool.not_eq_true',
        Bool.and_eq_false_iff, decide_eq_false_iff_not] at hok
      refine ⟨token, rfl, hok.1, ?_⟩
      rintro row hrow ⟨htenant, htoken⟩
      exact (hok.2 row hrow).elim (· htenant) (· htoken)
    | _ => simp [Replays, replays] at hok
  replay := by
    intro w' principal ch hok
    have hall : facts.filter (fun f => w.headVersion held.key + 1 ≤ f.version &&
        f.version ≤ held.version) = facts := by
      refine List.filter_eq_self.2 fun f hf => ?_
      rcases hc.versions.of_mem hf with ⟨hlow, hhigh, _⟩
      have hheld := hc.versions.version_getLast hlast
      simp only [Bool.and_eq_true, decide_eq_true_eq]
      omega
    cases ch with
    | replayed answer =>
      cases answer with
      | ok replay =>
        simp only [Replays, replays, hall, Bool.and_eq_true, decide_eq_true_eq] at hok
        exact ⟨replay, rfl, hok.1, hok.2⟩
      | error e => simp [Replays, replays] at hok
    | _ => simp [Replays, replays] at hok

theorem through_apply_last (hc : Continues w held.key facts) (hk : Keepable w held.key facts)
    (hlast : facts.getLast? = some held) (hnone : w.pendingIntent held.key = none) :
    ServesThrough machine (Replays held.key facts) (Keeps w) (Recovered w held.key facts) (apply held)
      w := by
  have hm := hc.missing hk
  by_cases hgap : w.headVersion held.key + 1 < held.version
  · refine through_apply_gap (supplies_replays hc hlast) hm hlast hgap ?_
    simp [World.unblocked, hnone]
  · -- There is no gap: the list is the held fact alone.
    have hone : facts = [held] := by
      have hlen := hc.versions.version_getLast hlast
      have hpos := List.length_pos_of_mem (List.mem_of_getLast? hlast)
      rcases List.length_eq_one_iff.1 (by omega : facts.length = 1) with ⟨f, rfl⟩
      simpa using hlast
    subst hone
    exact through_apply_next working_replays hm

theorem state_keeps {w' : World} (h : Keeps w w') (key : Key) : w'.state key = w.state key := by
  unfold World.state
  rcases h.heads key with hsame | ⟨hnone, hinitial⟩
  · rw [hsame]
  · rw [hnone, hinitial]
    rfl

end Gap

section Divergence

variable {β : Type} {w : World} {key : Key} {facts : List RouteFact} {held : RouteFact}
  {look : World → β}

def Diverges (w : World) (key : Key) (facts : List RouteFact) (held : RouteFact) (look : World → β) :
    Prop :=
  ∃ chs chs' os o w₁ w₂, exec machine (Replays key facts) chs (applyEach facts) w = some (os, w₁) ∧
    exec machine (Replays key facts) chs' (apply held) w = some (o, w₂) ∧ look w₁ ≠ look w₂

theorem diverges_of_exec {chs chs' : List Choice} {a b : β}
    (heach : (exec machine (Replays key facts) chs (applyEach facts) w).map (fun p => look p.2) = some a)
    (hbatch : (exec machine (Replays key facts) chs' (apply held) w).map (fun p => look p.2) = some b)
    (hne : a ≠ b) : Diverges w key facts held look := by
  rcases Option.map_eq_some_iff.1 heach with ⟨⟨os, w₁⟩, hw₁, rfl⟩
  rcases Option.map_eq_some_iff.1 hbatch with ⟨⟨o, w₂⟩, hw₂, rfl⟩
  exact ⟨chs, chs', os, o, w₁, w₂, hw₁, hw₂, hne⟩

end Divergence

namespace Scenario

theorem continues_pair {w : World} {f g : RouteFact} (hhead : w.headVersion key = 0)
    (hevents : w.events.rows = []) (hkeys : ∀ x ∈ [f, g], x.key = key)
    (hvalid : ∀ x ∈ [f, g], validateFact x = true) (hfirst : f.version = 1) (hsecond : g.version = 2)
    (hdistinct : f.eventId ≠ g.eventId) (hf : w.bound f) (hg : w.bound g) :
    Continues w key [f, g] where
  keys := hkeys
  valid := hvalid
  versions := by
    rw [hhead]
    exact consecutive_cons.2 ⟨hfirst, consecutive_cons.2 ⟨hsecond, consecutive_nil⟩⟩
  distinct := by simpa using hdistinct
  new := by simp [hevents]
  bound := by
    intro x hx _
    rcases List.mem_pair.1 hx with rfl | rfl
    · exact hf
    · exact hg

def late : RouteFact :=
  { ringing with version := 2, visibilityGeneration := 2, leaseUntil := 400000000000 * 1000000000 }

def soon : RouteFact :=
  { ringing with leaseUntil := 1 }

def reads : List Choice :=
  [.go, .go, .go]

def gapped (facts : List RouteFact) : List Choice :=
  reads ++ [.id token, .go, .replayed (.ok ⟨facts, facts.length⟩), .go, .go]

end Scenario

end RelayPoint.RouteProjection
